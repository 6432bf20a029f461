import BenchTables.Proofs.Decimal.Digits
import Mathlib.Algebra.Order.Field.Power
import Mathlib.Data.Rat.Cast.Order

/-!
# The numbers that texts denote

`Denotes` says which texts are decimal numbers and which number each of them is, without regard to
how they are read.  The reader takes every such text for a numeral of that number
(`read?_of_denotes`), so that a text denotes one number at most.  Those that are nothing but digits
are read as unsigned integers (`readWord_eq_ok_iff`).
-/

namespace BenchTables.Decimal

/-- What can stand in front of digits; without a sign they count as positive. -/
inductive SignText : List Char → Bool → Prop
  | none : SignText [] false
  | plus : SignText ['+'] false
  | minus : SignText ['-'] true

/-- A point with the digits behind it, of which there may be none, or no point. -/
inductive FractionText : List Char → List Char → Prop
  | none : FractionText [] []
  | point {ds : List Char} (hds : ∀ c ∈ ds, isDigit c) : FractionText ('.' :: ds) ds

def signed (negative : Bool) (q : ℚ) : ℚ :=
  if negative then -q else q

/-- The power of ten that a text ends in. -/
inductive ExponentText : List Char → ℤ → Prop
  | none : ExponentText [] 0
  | power {letter : Char} {sign ds : List Char} {negative : Bool}
      (hletter : letter = 'e' ∨ letter = 'E') (hsign : SignText sign negative) (hne : ds ≠ [])
      (hds : ∀ c ∈ ds, isDigit c) :
      ExponentText (letter :: (sign ++ ds))
        (if negative then -(digitsValue ds : ℤ) else digitsValue ds)

/-- A text is a decimal number: a sign, digits before or behind a point, and an exponent. -/
inductive Denotes : List Char → ℚ → Prop
  | intro {sign whole point fraction power : List Char} {negative : Bool} {exponent : ℤ}
      (hsign : SignText sign negative) (hwhole : ∀ c ∈ whole, isDigit c)
      (hpoint : FractionText point fraction) (hsome : whole ≠ [] ∨ fraction ≠ [])
      (hpower : ExponentText power exponent) :
      Denotes (sign ++ (whole ++ (point ++ power)))
        (signed negative (digitsValue (whole ++ fraction) * 10 ^ (exponent - fraction.length)))

/-- A text is an unsigned integer of 64 bits: digits, behind a plus sign or not. -/
inductive WordText : List Char → UInt64 → Prop
  | bare {ds : List Char} {w : UInt64} (hne : ds ≠ []) (hds : ∀ c ∈ ds, isDigit c)
      (hvalue : digitsValue ds = w.toNat) : WordText ds w
  | plus {ds : List Char} {w : UInt64} (hne : ds ≠ []) (hds : ∀ c ∈ ds, isDigit c)
      (hvalue : digitsValue ds = w.toNat) : WordText ('+' :: ds) w

/-- The number that a numeral stands for. -/
def Numeral.value (n : Numeral) : ℚ :=
  signed n.negative (n.coefficient * 10 ^ n.exponent)

variable {sign whole point fraction power text ds rest : List Char} {negative : Bool}
  {exponent : ℤ} {q q' : ℚ}

/-! ## Parts of a text -/

theorem takeSign_append (hsign : SignText sign negative)
    (hrest : ∀ c ∈ rest.head?, c ≠ '-' ∧ c ≠ '+') :
    Numeral.takeSign (sign ++ rest) = (negative, rest) := by
  cases hsign with
  | plus => rfl
  | minus => rfl
  | none =>
    rw [List.nil_append]
    unfold Numeral.takeSign
    split
    · exact absurd rfl (hrest '-' rfl).1
    · exact absurd rfl (hrest '+' rfl).2
    · rfl

theorem not_sign_of_isDigit {c : Char} (h : isDigit c) : c ≠ '-' ∧ c ≠ '+' := by
  constructor
  · rintro rfl
    exact absurd h (by decide)
  · rintro rfl
    exact absurd h (by decide)

/-- The digits in front of a text that begins with none. -/
theorem span_digits (hds : ∀ c ∈ ds, isDigit c) (hrest : ∀ c ∈ rest.head?, ¬isDigit c) :
    (ds ++ rest).takeWhile isDigit = ds ∧ (ds ++ rest).dropWhile isDigit = rest := by
  rw [List.takeWhile_append_of_pos hds, List.dropWhile_append_of_pos hds]
  cases rest with
  | nil => exact ⟨List.append_nil ds, rfl⟩
  | cons c others =>
    have hc : ¬isDigit c := hrest c rfl
    rw [List.takeWhile_cons_of_neg hc, List.dropWhile_cons_of_neg hc]
    exact ⟨List.append_nil ds, rfl⟩

theorem ExponentText.head (h : ExponentText power exponent) :
    ∀ c ∈ power.head?, c = 'e' ∨ c = 'E' := by
  cases h with
  | none => nofun
  | power hletter =>
    rintro c ⟨⟩
    exact hletter

theorem readExponent?_of_exponentText (h : ExponentText power exponent) :
    Numeral.readExponent? power = some exponent := by
  cases h with
  | none => rfl
  | @power letter sign ds negative hletter hsign hne hds =>
    have hhead : ∀ c ∈ ds.head?, c ≠ '-' ∧ c ≠ '+' := fun c hc =>
      not_sign_of_isDigit (hds c (List.mem_of_mem_head? hc))
    have hall : ds ≠ [] ∧ ds.all isDigit := ⟨hne, List.all_eq_true.mpr hds⟩
    rw [Numeral.readExponent?, if_pos hletter, takeSign_append hsign hhead]
    exact if_pos hall

theorem takeFraction_append (hpoint : FractionText point fraction)
    (hpower : ExponentText power exponent) :
    Numeral.takeFraction (point ++ power) = (fraction, power) := by
  have hhead := hpower.head
  cases hpoint with
  | point hds =>
    have hrest : ∀ c ∈ power.head?, ¬isDigit c := by
      intro c hc
      rcases hhead c hc with rfl | rfl
      · decide
      · decide
    obtain ⟨htake, hdrop⟩ := span_digits hds hrest
    rw [List.cons_append, Numeral.takeFraction, htake, hdrop]
  | none =>
    rw [List.nil_append]
    unfold Numeral.takeFraction
    split
    · rcases hhead '.' rfl with h | h
      · exact absurd h (by decide)
      · exact absurd h (by decide)
    · rfl

/-- Behind the digits there is a point, a letter or nothing. -/
theorem not_isDigit_head (hpoint : FractionText point fraction)
    (hpower : ExponentText power exponent) : ∀ c ∈ (point ++ power).head?, ¬isDigit c := by
  cases hpoint with
  | point =>
    rintro c ⟨⟩
    decide
  | none =>
    intro c hc
    rcases hpower.head c hc with rfl | rfl
    · decide
    · decide

theorem not_sign_head (hwhole : ∀ c ∈ whole, isDigit c) (hpoint : FractionText point fraction)
    (hsome : whole ≠ [] ∨ fraction ≠ []) :
    ∀ c ∈ (whole ++ (point ++ power)).head?, c ≠ '-' ∧ c ≠ '+' := by
  intro c hc
  cases whole with
  | cons d others =>
    cases hc
    exact not_sign_of_isDigit (hwhole c List.mem_cons_self)
  | nil =>
    -- Without digits in front there is a point.
    cases hpoint with
    | none => exact absurd rfl (hsome.resolve_left (fun h => h rfl))
    | point =>
      cases hc
      decide

/-! ## The text -/

/-- A decimal number is read as a numeral of the number that it denotes. -/
theorem read?_of_denotes (h : Denotes text q) : ∃ n, Numeral.read? text = some n ∧ n.value = q := by
  cases h with
  | @intro sign whole point fraction power negative exponent hsign hwhole hpoint hsome hpower =>
    refine ⟨⟨negative, digitsValue (whole ++ fraction), exponent - fraction.length⟩, ?_, rfl⟩
    have hne : ¬(whole = [] ∧ fraction = []) := not_and_or.mpr hsome
    obtain ⟨htake, hdrop⟩ := span_digits hwhole (not_isDigit_head hpoint hpower)
    rw [Numeral.read?, takeSign_append hsign (not_sign_head hwhole hpoint hsome)]
    dsimp only
    rw [Numeral.readUnsigned?, htake, hdrop, takeFraction_append hpoint hpower]
    dsimp only
    rw [if_neg hne, readExponent?_of_exponentText hpower]
    rfl

theorem Denotes.unique (h : Denotes text q) (h' : Denotes text q') : q = q' := by
  obtain ⟨n, hn, rfl⟩ := read?_of_denotes h
  obtain ⟨n', hn', rfl⟩ := read?_of_denotes h'
  rw [Option.some.inj (hn.symm.trans hn')]

/-! ## Unsigned integers -/

theorem readWord_eq_ok_iff {w : UInt64} : readWord 10 text = .ok w ↔ WordText text w := by
  constructor
  · intro h
    unfold readWord at h
    split at h
    · cases h
    · cases h
    next ds hds =>
      obtain ⟨hdigits, hvalue⟩ := (map_foldlM_nextDigit_eq_ok_iff ds w).mp h
      exact .plus (fun hnil => hds (by rw [hnil])) hdigits hvalue
    next hne _ _ =>
      obtain ⟨hdigits, hvalue⟩ := (map_foldlM_nextDigit_eq_ok_iff text w).mp h
      exact .bare hne hdigits hvalue
  · intro h
    cases h with
    | bare hne hds hvalue =>
      -- Digits do not begin with a plus sign, so none is taken off.
      have hnot : ∀ rest, text ≠ '+' :: rest := by
        rintro rest rfl
        exact absurd (hds '+' List.mem_cons_self) (by decide)
      unfold readWord
      split
      · exact absurd rfl hne
      · exact absurd rfl (hnot [])
      next rest _ => exact absurd rfl (hnot rest)
      · exact (map_foldlM_nextDigit_eq_ok_iff text w).mpr ⟨hds, hvalue⟩
    | @plus ds _ hne hds hvalue =>
      obtain ⟨first, rest, rfl⟩ := List.exists_cons_of_ne_nil hne
      exact (map_foldlM_nextDigit_eq_ok_iff (first :: rest) w).mpr ⟨hds, hvalue⟩

theorem WordText.denotes {w : UInt64} (h : WordText text w) : Denotes text w.toNat := by
  -- An unsigned integer is a decimal number without fraction and exponent.
  have hdigits : ∀ {sign ds : List Char}, SignText sign false → ds ≠ [] →
      (∀ c ∈ ds, isDigit c) → digitsValue ds = w.toNat → Denotes (sign ++ ds) w.toNat := by
    intro sign ds hsign hne hds hvalue
    have hdenotes := Denotes.intro hsign hds .none (Or.inl hne) .none
    rw [List.append_nil, List.append_nil, hvalue] at hdenotes
    convert hdenotes using 1
    simp [signed]
  cases h with
  | bare hne hds hvalue => exact hdigits .none hne hds hvalue
  | plus hne hds hvalue => exact hdigits .plus hne hds hvalue

end BenchTables.Decimal
