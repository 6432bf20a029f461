import BenchTables.Proofs.Binary64.Nearest

/-!
# The order of doubles

Doubles are compared by their signs, then by their exponents and then by their significands.  For
finite doubles that is the order of the numbers that they stand for (`numberOf_le`), since an
exponent that is greater makes up for all of the significand.
-/

open Float.Model Float.Model.UnpackedFloat

namespace BenchTables.Binary64

variable {x y : Float} {m m' : ℕ} {e e' : ℤ}

theorem unpack_neg (hx : x.isFinite) : (-x).toModel.unpack = x.toModel.unpack.neg := by
  change (Float.Model.pack x.toModel.unpack.neg).unpack = _
  have hdouble := IsDouble.of_unpack hx
  generalize x.toModel.unpack = u at hdouble
  cases hdouble with
  | zero s => exact (IsDouble.zero (-s)).unpack_pack
  | finite s h => exact (IsDouble.finite (-s) h).unpack_pack

theorem numberOf_neg (hx : x.isFinite) : numberOf (-x) = -numberOf x := by
  rw [numberOf, numberOf, unpack_neg hx]
  cases x.toModel.unpack with
  | notANumber => exact neg_zero.symm
  | infinity s => exact neg_zero.symm
  | zero s => exact neg_zero.symm
  | finite s m e hm =>
    cases s with
    | positive => rfl
    | negative => exact (neg_neg _).symm

/-- Of two doubles with all bits the one with the greater exponent is greater. -/
theorem Canonical.lt_of_exponent_lt (h : Canonical m e) (h' : Canonical m' e') (he : e < e') :
    (m : ℚ) * 2 ^ e < m' * 2 ^ e' := by
  have hmin := h.minExponent_le
  have hfull : 2 ^ 52 ≤ m' := h'.full.resolve_left (by omega)
  calc (m : ℚ) * 2 ^ e < 2 ^ 53 * 2 ^ e :=
        mul_lt_mul_of_pos_right (by exact_mod_cast h.lt) (two_pow_pos e)
    _ = 2 ^ 52 * 2 ^ (e + 1) := by
        rw [zpow_add₀ two_ne_zero_rat, zpow_one]
        ring
    _ ≤ 2 ^ 52 * 2 ^ e' :=
        mul_le_mul_of_nonneg_left (zpow_le_zpow_right₀ (by norm_num) (by omega)) (by norm_num)
    _ ≤ m' * 2 ^ e' :=
        mul_le_mul_of_nonneg_right (by exact_mod_cast hfull) (two_pow_pos e').le

/-- Exponents are compared first, and then significands. -/
theorem Canonical.le_of_compare (h : Canonical m e) (h' : Canonical m' e')
    (hle : ((compare e e').then (compare m m')).isLE) : (m : ℚ) * 2 ^ e ≤ m' * 2 ^ e' := by
  rcases Int.lt_trichotomy e e' with hlt | rfl | hgt
  · exact (h.lt_of_exponent_lt h' hlt).le
  · rw [Int.compare_eq_eq.mpr rfl] at hle
    have hm : m ≤ m' := Nat.isLE_compare.mp hle
    exact mul_le_mul_of_nonneg_right (by exact_mod_cast hm) (two_pow_pos e).le
  · rw [Int.compare_eq_gt.mpr hgt] at hle
    cases hle

theorem Canonical.le_of_compare_swap (h : Canonical m e) (h' : Canonical m' e')
    (hle : ((compare e e').then (compare m m')).swap.isLE) : (m' : ℚ) * 2 ^ e' ≤ m * 2 ^ e := by
  rw [Ordering.swap_then, Int.compare_swap, Nat.compare_swap] at hle
  exact h'.le_of_compare h hle

/-- A double that is not above another stands for a number that is not above its number. -/
theorem numberOf_le (hx : x.isFinite) (hy : y.isFinite) (h : x ≤ y) : numberOf x ≤ numberOf y := by
  have hcompare : UnpackedFloat.le x.toModel.unpack y.toModel.unpack = true :=
    of_decide_eq_true h
  have hdouble := IsDouble.of_unpack hx
  have hdouble' := IsDouble.of_unpack hy
  unfold numberOf
  generalize x.toModel.unpack = u at hcompare hdouble
  generalize y.toModel.unpack = v at hcompare hdouble'
  have hpos : ∀ {m : ℕ} {e : ℤ}, (0 : ℚ) ≤ m * 2 ^ e := fun {m e} =>
    mul_nonneg (Nat.cast_nonneg m) (two_pow_pos e).le
  cases hdouble with
  | zero s =>
    cases hdouble' with
    | zero s' => exact le_rfl
    | finite s' h' =>
      cases s' with
      | positive => exact hpos
      | negative => cases hcompare
  | finite s h =>
    cases hdouble' with
    | zero s' =>
      cases s with
      | positive => cases hcompare
      | negative => exact neg_nonpos.mpr hpos
    | finite s' h' =>
      cases s with
      | positive =>
        cases s' with
        | positive => exact h.le_of_compare h' hcompare
        | negative => cases hcompare
      | negative =>
        cases s' with
        | positive => exact (neg_nonpos.mpr hpos).trans hpos
        | negative => exact neg_le_neg (h.le_of_compare_swap h' hcompare)

end BenchTables.Binary64
