import BenchTables.Proofs.Binary64.Finite
import BenchTables.Proofs.Binary64.TotalOrder

/-!
# The double nearest to a number

What a double stands for is a rational number (`numberOf`), and the double nearest to a number is
told by its distance from it and from all other doubles (`IsNearest`).  Rounding to the unit of the
last place is rounding to the nearest double (`isNearest_of_roundsTo`): a double is a whole number
of units, or else it is below all numbers that are rounded to this unit.
-/

open Float.Model Float.Model.UnpackedFloat

namespace BenchTables.Binary64

open Decimal (NearestEven)

/-- The number that is unpacked; zero for what is not finite. -/
def valueOf : UnpackedFloat → ℚ
  | .finite .positive m e _ => m * 2 ^ e
  | .finite .negative m e _ => -(m * 2 ^ e)
  | _ => 0

/-- The number that a double stands for. -/
def numberOf (x : Float) : ℚ :=
  valueOf x.toModel.unpack

/-- The significand of a double, with all its bits unless the double is too small for them. -/
def significand : UnpackedFloat → ℕ
  | .finite _ m _ _ => m
  | _ => 0

/-- No finite double is nearer to a number, and of two that are equally near it is the one with an
even significand. -/
structure IsNearest (q : ℚ) (x : Float) : Prop where
  isFinite : x.isFinite
  nearest : ∀ y : Float, y.isFinite → |q - numberOf x| ≤ |q - numberOf y|
  even : ∀ y : Float, y.isFinite → |q - numberOf x| = |q - numberOf y| → numberOf y ≠ numberOf x →
    Even (significand x.toModel.unpack)

variable {q : ℚ} {x : Float} {u : UnpackedFloat} {m r : ℕ} {e t : ℤ}

theorem valueOf_of_positive (h : signOf? u = some .positive) : valueOf u = magnitude u := by
  cases u with
  | notANumber => cases h
  | infinity s => rfl
  | zero s => rfl
  | finite s m e hm =>
    cases h
    rfl

theorem abs_valueOf (u : UnpackedFloat) : |valueOf u| = magnitude u := by
  cases u with
  | notANumber => exact abs_zero
  | infinity s => exact abs_zero
  | zero s => exact abs_zero
  | finite s m e hm =>
    have hpos : (0 : ℚ) ≤ m * 2 ^ e := mul_nonneg (Nat.cast_nonneg _) (two_pow_pos _).le
    cases s with
    | positive => exact abs_of_nonneg hpos
    | negative => exact (abs_neg _).trans (abs_of_nonneg hpos)

/-! ## Units of the last place -/

/-- A number is not near to two whole numbers. -/
theorem one_le_abs_sub_add {k : ℤ} (hk : k ≠ r) : 1 ≤ |q - k| + |q - r| := by
  calc (1 : ℚ) ≤ |(k : ℚ) - r| := by exact_mod_cast Int.one_le_abs (sub_ne_zero.mpr hk)
    _ ≤ |(k : ℚ) - q| + |q - r| := abs_sub_le (k : ℚ) q r
    _ = |q - k| + |q - r| := by rw [abs_sub_comm]

/-- No whole number is nearer than the nearest one. -/
theorem abs_sub_le_of_nearestEven (hr : NearestEven q r) (k : ℤ) : |q - r| ≤ |q - k| := by
  by_cases hk : k = r
  · rw [hk, Int.cast_natCast]
  · have hfar : 1 ≤ |q - k| + |q - r| := one_le_abs_sub_add hk
    linarith [hr.abs_sub_le]

theorem even_of_tie (hr : NearestEven q r) {k : ℤ} (hk : k ≠ r) (h : |q - r| = |q - k|) :
    Even r := by
  rcases hr with hlt | ⟨-, heven⟩
  · have hfar : 1 ≤ |q - k| + |q - r| := one_le_abs_sub_add hk
    linarith
  · exact heven

/-- A double is a whole number of units, or smaller than all numbers with that unit. -/
theorem IsDouble.whole_or_small (h : IsDouble u) (ht : -1074 ≤ t) :
    (∃ k : ℤ, valueOf u = k * 2 ^ t) ∨ -1074 < t ∧ |valueOf u| < 2 ^ (t + 52) := by
  rw [abs_valueOf]
  cases h with
  | zero s => exact Or.inl ⟨0, by rw [Int.cast_zero, zero_mul]; rfl⟩
  | @finite s m e h =>
    by_cases hte : t ≤ e
    · left
      obtain ⟨k, hk⟩ := Int.eq_ofNat_of_zero_le (show 0 ≤ e - t by omega)
      have hunits : (m : ℚ) * 2 ^ e = (m * 2 ^ k : ℤ) * 2 ^ t := by
        rw [show e = k + t by omega, zpow_add₀ two_ne_zero_rat, zpow_natCast]
        push_cast
        ring
      cases s with
      | positive => exact ⟨m * 2 ^ k, hunits⟩
      | negative =>
        refine ⟨-(m * 2 ^ k), ?_⟩
        rw [Int.cast_neg, neg_mul, ← hunits]
        rfl
    · right
      have hmin := h.minExponent_le
      have hm : (m : ℚ) < 2 ^ 53 := by exact_mod_cast h.lt
      refine ⟨by omega, ?_⟩
      calc (m : ℚ) * 2 ^ e < 2 ^ 53 * 2 ^ e := mul_lt_mul_of_pos_right hm (two_pow_pos e)
        _ = 2 ^ (e + 53) := by
          rw [zpow_add₀ two_ne_zero_rat, mul_comm]
          rfl
        _ ≤ 2 ^ (t + 52) := zpow_le_zpow_right₀ (by norm_num) (by omega)

theorem even_significand_ofRounded (s : Sign) (t : ℤ) (hr : Even r) :
    Even (significand (ofRounded s r t)) := by
  unfold ofRounded
  by_cases hzero : r = 0
  · rw [dif_pos hzero]
    exact Even.zero
  rw [dif_neg hzero]
  by_cases hlt : r < 2 ^ 53
  · rw [if_pos hlt]
    exact hr
  · rw [if_neg hlt]
    exact show Even (2 ^ 52) from ⟨2 ^ 51, by decide⟩

/-- Rounding to the unit of the last place is rounding to the nearest double. -/
theorem isNearest_of_roundsTo (hu : RoundsTo q .positive u) (hdouble : IsDouble u)
    (hx : x.toModel.unpack = u) : IsNearest q x := by
  have hvalue : numberOf x = magnitude u := by
    rw [numberOf, hx, valueOf_of_positive (signOf?_of_roundsTo hu)]
  have hfinite : x.isFinite := (isFinite_iff x).mpr (hx ▸ hdouble.isFinite)
  obtain ⟨r, t, ht, hr, rfl⟩ := hu
  rw [magnitude_ofRounded _ t (le_of_unitExponent ht hr)] at hvalue
  have hpos := two_pow_pos t
  have hscale : ∀ k : ℚ, |q - k * 2 ^ t| = |q / 2 ^ t - k| * 2 ^ t := by
    intro k
    rw [← abs_of_pos hpos, ← abs_mul, abs_of_pos hpos, sub_mul, div_mul_cancel₀ _ hpos.ne']
  have hwhole : ∀ k : ℤ, |q - numberOf x| ≤ |q - k * 2 ^ t| := by
    intro k
    rw [hvalue, hscale, hscale]
    exact mul_le_mul_of_nonneg_right (abs_sub_le_of_nearestEven hr k) hpos.le
  -- Below all numbers of this unit there is a whole number of units that is nearer.
  have hsmall : ∀ v : ℚ, -1074 < t → |v| < 2 ^ (t + 52) → |q - numberOf x| < |q - v| := by
    intro v hmin hv
    have hlow : (2 : ℚ) ^ (t + 52) ≤ q := ht.2.2.resolve_left (by omega)
    have hunits : (2 : ℚ) ^ (t + 52) = ((2 ^ 52 : ℤ) : ℚ) * 2 ^ t := by
      rw [zpow_add₀ two_ne_zero_rat, mul_comm]
      norm_num
    have hpower := hwhole (2 ^ 52)
    have hbelow := (abs_lt.mp hv).2
    rw [← hunits, abs_of_nonneg (sub_nonneg.mpr hlow)] at hpower
    rw [abs_of_nonneg (sub_nonneg.mpr (hbelow.le.trans hlow))]
    linarith
  refine ⟨hfinite, fun y hy => ?_, fun y hy htie hne => ?_⟩
  · rcases (IsDouble.of_unpack hy).whole_or_small ht.1 with ⟨k, hk⟩ | ⟨hmin, hv⟩
    · exact (hwhole k).trans_eq (by rw [numberOf, hk])
    · exact (hsmall _ hmin hv).le
  · rw [hx]
    rcases (IsDouble.of_unpack hy).whole_or_small ht.1 with ⟨k, hk⟩ | ⟨hmin, hv⟩
    · have hkr : k ≠ r := by
        rintro rfl
        exact hne (by rw [numberOf, hk, hvalue, Int.cast_natCast])
      rw [hvalue, numberOf, hk, hscale, hscale] at htie
      exact even_significand_ofRounded _ t (even_of_tie hr hkr (mul_right_cancel₀ hpos.ne' htie))
    · exact absurd htie (hsmall _ hmin hv).ne

end BenchTables.Binary64
