import BenchTables.Condensed.Row
import BenchTables.Latex.Markup
import BenchTables.Proofs.Decimal.Magnitude

/-!
# What is printed of a double

A finite double is printed as the multiple of one hundredth that is nearest to the number it stands
for (`IsPrinted`).  Every figure of the published tables and of the condensed ones is such a text,
and figures are printed in the order of the doubles: `figures_printed`.
-/

open Float.Model Float.Model.UnpackedFloat

namespace BenchTables.Decimal

open Binary64

/-- The multiple of one hundredth that is nearest to a number, an even one where two are. -/
structure IsNearestHundredth (q : ℚ) (z : ℤ) : Prop where
  nearest : ∀ k : ℤ, |q - z / 100| ≤ |q - k / 100|
  even : ∀ k : ℤ, k ≠ z → |q - z / 100| = |q - k / 100| → Even z

/-- The digits of an integer, without a zero in front of others. -/
structure IsInteger (ds : List Char) : Prop where
  ne_nil : ds ≠ []
  digits : ∀ c ∈ ds, isDigit c
  canonical : ds.head? = some '0' → ds = ['0']

/-- The text of a double, and the number of hundredths that it shows. -/
structure IsPrinted (x : Float) (text : String) (z : ℤ) : Prop where
  form : ∃ whole tens ones, IsInteger whole ∧ isDigit tens ∧ isDigit ones ∧
    text.toList = (if hasSignBit x then ['-'] else []) ++ (whole ++ ['.', tens, ones])
  denotes : Denotes text.toList (z / 100)
  nearest : IsNearestHundredth (numberOf x) z

variable {x y : Float} {q q' : ℚ} {z z' : ℤ} {n : ℕ} {text text' : String}

/-! ## Nearest hundredths -/

theorem isNearestHundredth_of_nearestEven (h : NearestEven (100 * q) n) :
    IsNearestHundredth q n := by
  have hscale : ∀ k : ℚ, |q - k / 100| = |100 * q - k| / 100 := by
    intro k
    rw [show q - k / 100 = (100 * q - k) / 100 by ring, abs_div,
      abs_of_pos (by norm_num : (0 : ℚ) < 100)]
  have hcast : ((n : ℤ) : ℚ) = n := Int.cast_natCast n
  constructor
  · intro k
    rw [hscale, hscale, hcast]
    exact div_le_div_of_nonneg_right (abs_sub_le_of_nearestEven h k) (by norm_num)
  · intro k hk htie
    rw [hscale, hscale, hcast] at htie
    exact (Int.even_coe_nat n).mpr (even_of_tie h hk (by linarith))

theorem IsNearestHundredth.neg (h : IsNearestHundredth q z) : IsNearestHundredth (-q) (-z) := by
  have hmirror : ∀ k : ℤ, |-q - k / 100| = |q - (-k : ℤ) / 100| := by
    intro k
    rw [Int.cast_neg, ← abs_neg]
    congr 1
    ring
  constructor
  · intro k
    rw [hmirror, hmirror, neg_neg]
    exact h.nearest (-k)
  · intro k hk htie
    rw [hmirror, hmirror, neg_neg] at htie
    exact (h.even (-k) (fun heq => hk (by omega)) htie).neg

/-- The hundredth below is not nearer. -/
theorem IsNearestHundredth.half_le (h : IsNearestHundredth q z) : z - 1 / 2 ≤ 100 * q := by
  -- Squares compare distances without a case for each sign.
  have hbelow := sq_le_sq.mpr (h.nearest (z - 1))
  push_cast at hbelow
  linarith

/-- The hundredth above is not nearer. -/
theorem IsNearestHundredth.le_half (h : IsNearestHundredth q z) : 100 * q ≤ z + 1 / 2 := by
  have habove := h.neg.half_le
  push_cast at habove
  linarith

/-- Half way to the hundredth below only an even one is nearest. -/
theorem IsNearestHundredth.even_of_half (h : IsNearestHundredth q z) (hq : 100 * q = z - 1 / 2) :
    Even z := by
  obtain rfl : q = z / 100 - 1 / 200 := by linarith
  refine h.even (z - 1) (by omega) (abs_eq_abs.mpr (Or.inr ?_))
  push_cast
  ring

theorem IsNearestHundredth.mono (h : IsNearestHundredth q z) (h' : IsNearestHundredth q' z')
    (hle : q ≤ q') : z ≤ z' := by
  by_contra hlt
  have hstep : (z' : ℚ) + 1 ≤ z := by exact_mod_cast Int.lt_of_not_ge hlt
  have hlow := h.half_le
  have hhigh := h'.le_half
  -- Only a number half way between two hundredths is left, and both of them would be even.
  have hnext : z = z' + 1 := by
    have hcast : (z : ℚ) = (z' + 1 : ℤ) := by
      push_cast
      linarith
    exact_mod_cast hcast
  have heven : Even z := h.even_of_half (by linarith)
  have heven' : Even (-z') := h'.neg.even_of_half (by push_cast; linarith)
  rw [hnext, Int.even_add_one] at heven
  exact heven (even_neg.mp heven')

/-! ## The text of a finite double -/

theorem isInteger_digits (n : ℕ) : IsInteger (digits n) := by
  refine ⟨digits_ne_nil n, fun _ => isDigit_of_mem_digits, fun hzero => ?_⟩
  rw [(head?_digits_eq_zero_iff n).mp hzero]
  rfl

/-- A sign and a text of hundredths are the number that they show. -/
theorem denotes_hundredthsText {sign : List Char} {negative : Bool} (hsign : SignText sign negative)
    (n : ℕ) :
    Denotes (sign ++ (hundredthsText n).toList) ((if negative then -(n : ℤ) else n : ℤ) / 100) := by
  have hfraction : ∀ c ∈ [(n / 10 % 10).digitChar, (n % 10).digitChar], isDigit c := by
    rintro c hc
    rcases List.mem_pair.mp hc with rfl | rfl
    · exact isDigit_digitChar (Nat.mod_lt _ (by decide))
    · exact isDigit_digitChar (Nat.mod_lt _ (by decide))
  -- The text is the digits of `n` with a point in front of the last two.
  have h := Denotes.intro hsign (fun _ => isDigit_of_mem_digits (n := n / 100)) (.point hfraction)
    (Or.inl (digits_ne_nil _)) .none
  have hplaces : (10 : ℚ) ^ (0 - (2 : ℤ)) = 1 / 100 := by norm_num
  rw [digitsValue_hundredths, List.append_nil, ← hundredthsText_toList] at h
  convert h using 1
  change _ = signed negative (n * 10 ^ (0 - (2 : ℤ)))
  rw [hplaces, signed]
  split
  · push_cast
    ring
  · push_cast
    ring

/-- A finite double is printed. -/
theorem isPrinted_twoPlaces (hx : x.isFinite) : ∃ z, IsPrinted x (twoPlaces x) z := by
  obtain ⟨m, e, hvalue, hnumber⟩ := exists_magnitude hx
  have htext : (twoPlaces x).toList =
      (if hasSignBit x then ['-'] else []) ++ (hundredthsText (hundredths m e)).toList := by
    rw [twoPlaces, hvalue, BinaryValue.twoPlaces, String.toList_append]
    cases hasSignBit x with
    | false => rfl
    | true => rfl
  have hsign : SignText (if hasSignBit x then ['-'] else []) (hasSignBit x) := by
    cases hasSignBit x with
    | false => exact .none
    | true => exact .minus
  refine ⟨if hasSignBit x then -(hundredths m e : ℤ) else hundredths m e, ?_, ?_, ?_⟩
  · exact ⟨_, _, _, isInteger_digits (hundredths m e / 100),
      isDigit_digitChar (Nat.mod_lt _ (by decide)), isDigit_digitChar (Nat.mod_lt _ (by decide)),
      by rw [htext, hundredthsText_toList]⟩
  · rw [htext]
    exact denotes_hundredthsText hsign _
  · have hnear := isNearestHundredth_of_nearestEven (hundredths_nearestEven m e)
    rw [hnumber]
    cases hasSignBit x with
    | false => exact hnear
    | true => exact hnear.neg

/-! ## Figures -/

/-- Every figure of a finite double, in a published table and in a condensed one, is the nearest
hundredth, and figures are in the order of the doubles. -/
theorem figures_printed (hx : x.isFinite) :
    ∃ text z, IsPrinted x text z ∧
      (∀ unit, Latex.quantity x unit =
        "\\qty\x7b" ++ text ++ "\x7d\x7b" ++ unit.markup ++ "\x7d") ∧
      (∀ n (row : CondensedRow n) (i : Fin n), row.quantities[i] = x →
        row.cells[3 + i.val]? = some text) ∧
      ∀ y : Float, y.isFinite → x ≤ y → ∀ text' z', IsPrinted y text' z' → z ≤ z' := by
  obtain ⟨z, hz⟩ := isPrinted_twoPlaces hx
  refine ⟨twoPlaces x, z, hz, fun unit => ?_, fun n row i hi => ?_, ?_⟩
  · simp only [Latex.quantity, Latex.command, Latex.braced, String.join, List.map_cons,
      List.map_nil, List.foldl_cons, List.foldl_nil, String.append_assoc, String.empty_append]
    rfl
  · have hlength : i.val < (row.quantities.toList.map twoPlaces).length := by
      rw [List.length_map, Vector.length_toList]
      exact i.isLt
    -- Three cells name the row, and the quantities follow in their order.
    rw [CondensedRow.cells, List.getElem?_append_right (Nat.le_add_right 3 i.val)]
    simp [← hi]
  · intro y hy hle text' z' hz'
    exact hz.nearest.mono hz'.nearest (numberOf_le hx hy hle)

theorem figures_printed_minus_eighth :
    (-0.125 : Float).isFinite ∧ (-0.125 : Float) ≤ 2.675 ∧
      ∃ text z, IsPrinted (-0.125) text z ∧ ∀ text' z', IsPrinted 2.675 text' z' → z ≤ z' := by
  have hfinite : (-0.125 : Float).isFinite := by decide +kernel
  have hle : (-0.125 : Float) ≤ 2.675 := by decide +kernel
  obtain ⟨text, z, hz, -, -, hmono⟩ := figures_printed hfinite
  exact ⟨hfinite, hle, text, z, hz, hmono 2.675 (by decide +kernel) hle⟩

-- A half goes to the even hundredth, and what only looks like one does not.
example : twoPlaces (-0.125) = "-0.12" ∧ twoPlaces 0.375 = "0.38" ∧ twoPlaces 2.675 = "2.67" := by
  decide +kernel

end BenchTables.Decimal
