import BenchTables.Decimal.Fixed
import Mathlib.Algebra.Order.Ring.Abs
import Mathlib.Algebra.Order.Field.Basic
import Mathlib.Algebra.Ring.Parity
import Mathlib.Data.Rat.Cast.Order
import Mathlib.Tactic.FieldSimp
import Mathlib.Tactic.Linarith
import Mathlib.Tactic.Positivity
import Mathlib.Tactic.Ring

/-!
# Nearest, half to even

`NearestEven q n` says that `n` is the natural number nearest to the rational number `q`, the even
one of two that are equally near.  There is at most one such number.  Printed hundredths and the
significands of rounded doubles are both told by it, so that one can be compared with the other.
-/

namespace BenchTables.Decimal

def NearestEven (q : ℚ) (n : ℕ) : Prop :=
  |q - n| < 1 / 2 ∨ |q - n| = 1 / 2 ∧ Even n

variable {q : ℚ} {m n : ℕ}

theorem NearestEven.abs_sub_le (h : NearestEven q n) : |q - n| ≤ 1 / 2 := by
  rcases h with h | ⟨h, -⟩
  · exact h.le
  · exact h.le

theorem nearestEven_of_abs_lt (h : |q - n| < 1 / 2) : NearestEven q n :=
  Or.inl h

theorem nearestEven_natCast (n : ℕ) : NearestEven n n :=
  nearestEven_of_abs_lt (by rw [sub_self, abs_zero]; norm_num)

private theorem NearestEven.le (hm : NearestEven q m) (hn : NearestEven q n) : n ≤ m := by
  by_contra hlt
  -- Two neighbours are both nearest only on an exact half, and then one of them is odd.
  have hstep : (m : ℚ) + 1 ≤ n := by exact_mod_cast Nat.lt_of_not_le hlt
  have hqm := abs_le.mp hm.abs_sub_le
  have hqn := abs_le.mp hn.abs_sub_le
  have hq : q = m + 1 / 2 := by linarith
  have hnm : n = m + 1 := by
    have : (n : ℚ) = m + 1 := by linarith
    exact_mod_cast this
  have hhalf : |q - m| = 1 / 2 := by
    rw [hq, add_sub_cancel_left, abs_of_pos (by norm_num)]
  have hhalf' : |q - n| = 1 / 2 := by
    rw [hq, hnm, Nat.cast_succ, show (m : ℚ) + 1 / 2 - (m + 1) = -(1 / 2) by ring, abs_neg,
      abs_of_pos (by norm_num)]
  have hmEven : Even m := (hm.resolve_left (by rw [hhalf]; exact lt_irrefl _)).2
  have hnEven : Even n := (hn.resolve_left (by rw [hhalf']; exact lt_irrefl _)).2
  rw [hnm, Nat.even_add_one] at hnEven
  exact hnEven hmEven

theorem NearestEven.unique (hm : NearestEven q m) (hn : NearestEven q n) : m = n :=
  le_antisymm (hn.le hm) (hm.le hn)

theorem nearestEven_natCast_iff : NearestEven m n ↔ n = m := by
  constructor
  · intro h
    exact h.unique (nearestEven_natCast m)
  · rintro rfl
    exact nearestEven_natCast n

theorem NearestEven.natCast_le (h : NearestEven q n) (hm : (m : ℚ) ≤ q) : m ≤ n := by
  have hdist := (abs_le.mp h.abs_sub_le).2
  have hlt : (m : ℚ) < n + 1 := by linarith
  exact Nat.lt_succ_iff.mp (by exact_mod_cast hlt)

theorem NearestEven.le_natCast (h : NearestEven q n) (hm : q ≤ m) : n ≤ m := by
  have hdist := (abs_le.mp h.abs_sub_le).1
  have hlt : (n : ℚ) < m + 1 := by linarith
  exact Nat.lt_succ_iff.mp (by exact_mod_cast hlt)

/-! ## A whole number and a fraction -/

section Fraction

variable {k : ℕ} {x : ℚ}

theorem nearestEven_of_lt_half (hlow : (k : ℚ) ≤ x) (hhigh : x < k + 1 / 2) : NearestEven x k := by
  apply nearestEven_of_abs_lt
  rw [abs_lt]
  constructor <;> linarith

theorem nearestEven_of_half_lt (hlow : (k : ℚ) + 1 / 2 < x) (hhigh : x ≤ k + 1) :
    NearestEven x (k + 1) := by
  apply nearestEven_of_abs_lt
  rw [abs_lt]
  push_cast
  constructor <;> linarith

theorem nearestEven_half (k : ℕ) : NearestEven (k + 1 / 2) (k + k % 2) := by
  right
  rcases Nat.even_or_odd k with hk | hk
  · rw [Nat.even_iff.mp hk, Nat.add_zero, add_sub_cancel_left]
    exact ⟨abs_of_pos (by norm_num), hk⟩
  · rw [Nat.odd_iff.mp hk, Nat.cast_succ,
      show (k : ℚ) + 1 / 2 - (k + 1) = -(1 / 2) by ring, abs_neg]
    exact ⟨abs_of_pos (by norm_num), hk.add_one⟩

variable {r den : ℕ}

theorem natCast_div (num : ℕ) (hden : 0 < den) :
    (num : ℚ) / den = (num / den : ℕ) + (num % den : ℕ) / den := by
  have hpos : (0 : ℚ) < den := by exact_mod_cast hden
  have hparts : (den : ℚ) * (num / den : ℕ) + (num % den : ℕ) = num := by
    exact_mod_cast Nat.div_add_mod num den
  rw [← hparts]
  field_simp

theorem div_lt_half (hden : 0 < den) (h : 2 * r < den) : (r : ℚ) / den < 1 / 2 := by
  have hpos : (0 : ℚ) < den := by exact_mod_cast hden
  have hr : (2 : ℚ) * r < den := by exact_mod_cast h
  rw [div_lt_iff₀ hpos]
  linarith

theorem half_lt_div (hden : 0 < den) (h : den < 2 * r) : (1 : ℚ) / 2 < r / den := by
  have hpos : (0 : ℚ) < den := by exact_mod_cast hden
  have hr : (den : ℚ) < 2 * r := by exact_mod_cast h
  rw [lt_div_iff₀ hpos]
  linarith

theorem div_eq_half (hden : 0 < den) (h : 2 * r = den) : (r : ℚ) / den = 1 / 2 := by
  have hpos : (0 : ℚ) < den := by exact_mod_cast hden
  have hr : (2 : ℚ) * r = den := by exact_mod_cast h
  rw [div_eq_iff hpos.ne']
  linarith

theorem div_lt_one_of_lt (hden : 0 < den) (h : r < den) : (r : ℚ) / den < 1 := by
  have hpos : (0 : ℚ) < den := by exact_mod_cast hden
  rw [div_lt_one hpos]
  exact_mod_cast h

end Fraction

/-! ## Hundredths -/

theorem roundHalfEven_nearestEven (num : ℕ) {den : ℕ} (hden : 0 < den) :
    NearestEven (num / den) (roundHalfEven num den) := by
  have hbelow := div_lt_one_of_lt hden (Nat.mod_lt num hden)
  have hrest : (0 : ℚ) ≤ (num % den : ℕ) / den := by positivity
  rw [natCast_div num hden]
  simp only [roundHalfEven]
  split
  next hlt =>
    have hhalf := div_lt_half hden hlt
    exact nearestEven_of_lt_half (by linarith) (by linarith)
  next hge =>
    split
    next hgt =>
      have hhalf := half_lt_div hden hgt
      exact nearestEven_of_half_lt (by linarith) (by linarith)
    next hle =>
      rw [div_eq_half hden (by omega)]
      exact nearestEven_half (num / den)

theorem fraction_value (significand : ℕ) (exponent : ℤ) :
    ((BinaryValue.fraction significand exponent).1 : ℚ) /
      (BinaryValue.fraction significand exponent).2 = significand * 2 ^ exponent := by
  unfold BinaryValue.fraction
  split
  next h =>
    obtain ⟨k, rfl⟩ := Int.eq_ofNat_of_zero_le h
    simp
  next h =>
    obtain ⟨k, hk⟩ := Int.eq_ofNat_of_zero_le (show 0 ≤ -exponent by omega)
    obtain rfl : exponent = -(k : ℤ) := by omega
    simp [div_eq_mul_inv]

theorem hundredths_nearestEven (significand : ℕ) (exponent : ℤ) :
    NearestEven (100 * (significand * 2 ^ exponent)) (hundredths significand exponent) := by
  have h := roundHalfEven_nearestEven (100 * (BinaryValue.fraction significand exponent).1)
    (BinaryValue.fraction_den_pos significand exponent)
  rw [Nat.cast_mul, mul_div_assoc, fraction_value] at h
  exact h

/-- The hundredths of a magnitude depend on its value only. -/
theorem hundredths_eq_of_nearestEven {significand : ℕ} {exponent : ℤ}
    (h : NearestEven (100 * (significand * 2 ^ exponent)) n) :
    hundredths significand exponent = n :=
  (hundredths_nearestEven significand exponent).unique h

end BenchTables.Decimal
