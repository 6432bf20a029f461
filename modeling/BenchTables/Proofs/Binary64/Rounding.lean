import BenchTables.Proofs.Decimal.NearestEven
import Mathlib.Algebra.Order.Field.Power
import Mathlib.Tactic.NormNum

/-!
# Rounding to a double

A positive number is rounded to a double by shifting its significand to the exponent of the last
place and rounding there.  `roundWithAccuracy_roundsTo` says what comes out: `UnitExponent` fixes the
exponent, `NearestEven` the significand, and `ofRounded` carries a significand that has grown by
one bit.
-/

open Float.Model Float.Model.UnpackedFloat

namespace BenchTables.Binary64

open Decimal (NearestEven nearestEven_natCast nearestEven_of_lt_half nearestEven_of_half_lt
  nearestEven_half)

theorem two_ne_zero_rat : (2 : ℚ) ≠ 0 := by norm_num

/-! ## Significands with what was cut off -/

/-- `x` lies at or above `m` by less than one, and the accuracy tells where. -/
def Places (m : ℕ) (x : ℚ) : Accuracy → Prop
  | .exact => x = m
  | .inexact .lt => m < x ∧ x < m + 1 / 2
  | .inexact .eq => x = m + 1 / 2
  | .inexact .gt => m + 1 / 2 < x ∧ x < m + 1

variable {m : ℕ} {x : ℚ} {accuracy : Accuracy}

theorem Places.le (h : Places m x accuracy) : (m : ℚ) ≤ x := by
  rcases accuracy with - | (- | - | -) <;> simp only [Places] at h <;> linarith

theorem Places.lt (h : Places m x accuracy) : x < m + 1 := by
  rcases accuracy with - | (- | - | -) <;> simp only [Places] at h <;> linarith

theorem Places.nearestEven (h : Places m x accuracy) :
    NearestEven x (accuracy.roundToNearestEven m) := by
  rcases accuracy with - | (- | - | -) <;>
    simp only [Places, Accuracy.roundToNearestEven] at h ⊢
  case exact =>
    rw [h]
    exact nearestEven_natCast m
  case inexact.lt => exact nearestEven_of_lt_half h.1.le h.2
  case inexact.gt => exact nearestEven_of_half_lt h.1 h.2.le
  case inexact.eq =>
    rw [h]
    exact nearestEven_half m

/-- Halving moves the lowest bit of the significand into the bits behind it. -/
theorem places_shiftRightOne {em : ExtendedMantissa} (h : Places em.mantissa x em.accuracy) :
    Places em.shiftRightOne.mantissa (x / 2) em.shiftRightOne.accuracy := by
  obtain ⟨m, roundBit, stickyBit⟩ := em
  have hparts : (2 : ℚ) * (m / 2 : ℕ) + (m % 2 : ℕ) = m := by
    exact_mod_cast Nat.div_add_mod m 2
  -- The lowest bit becomes the round bit; the old round bit only adds to what is behind it.
  rcases Nat.mod_two_eq_zero_or_one m with hm | hm
  · have hbit : (m % 2 != 0) = false := by rw [hm]; rfl
    rw [hm, Nat.cast_zero, add_zero] at hparts
    cases roundBit <;> cases stickyBit <;>
      simp only [Places, ExtendedMantissa.accuracy, ExtendedMantissa.shiftRightOne, hbit,
        Bool.or_false, Bool.or_true] at h ⊢ <;>
      first
        | linarith
        | exact ⟨by linarith, by linarith⟩
  · have hbit : (m % 2 != 0) = true := by rw [hm]; rfl
    rw [hm, Nat.cast_one] at hparts
    cases roundBit <;> cases stickyBit <;>
      simp only [Places, ExtendedMantissa.accuracy, ExtendedMantissa.shiftRightOne, hbit,
        Bool.or_false, Bool.or_true] at h ⊢ <;>
      first
        | linarith
        | exact ⟨by linarith, by linarith⟩

theorem places_shiftRight {em : ExtendedMantissa} (h : Places em.mantissa x em.accuracy) (k : ℕ) :
    Places (em >>> k).mantissa (x / 2 ^ k) (em >>> k).accuracy := by
  change Places (k.repeat ExtendedMantissa.shiftRightOne em).mantissa _
    (k.repeat ExtendedMantissa.shiftRightOne em).accuracy
  induction k with
  | zero => simpa [Nat.repeat] using h
  | succ k ih =>
    rw [Nat.repeat, pow_succ, ← div_div]
    exact places_shiftRightOne ih

@[simp] theorem mantissa_ofMantissaAndAccuracy (m : ℕ) (accuracy : Accuracy) :
    (ExtendedMantissa.ofMantissaAndAccuracy m accuracy).mantissa = m := by
  rcases accuracy with - | (- | - | -) <;> rfl

@[simp] theorem accuracy_ofMantissaAndAccuracy (m : ℕ) (accuracy : Accuracy) :
    (ExtendedMantissa.ofMantissaAndAccuracy m accuracy).accuracy = accuracy := by
  rcases accuracy with - | (- | - | -) <;> rfl

/-! ## The exponent of the last place -/

/-- `t` is the exponent of the last place of the doubles around `q`. -/
def UnitExponent (q : ℚ) (t : ℤ) : Prop :=
  -1074 ≤ t ∧ q < 2 ^ (t + 53) ∧ (t = -1074 ∨ (2 : ℚ) ^ (t + 52) ≤ q)

theorem UnitExponent.le_of_lt {q : ℚ} {t k : ℤ} (ht : UnitExponent q t) (hk : -1074 ≤ k)
    (hq : q < 2 ^ (k + 53)) : t ≤ k := by
  obtain ⟨-, -, rfl | hlow⟩ := ht
  · exact hk
  · have hexp := (zpow_lt_zpow_iff_right₀ (by norm_num : (1 : ℚ) < 2)).mp (hlow.trans_lt hq)
    omega

theorem UnitExponent.unique {q : ℚ} {t u : ℤ} (ht : UnitExponent q t) (hu : UnitExponent q u) :
    t = u :=
  le_antisymm (ht.le_of_lt hu.1 hu.2.1) (hu.le_of_lt ht.1 ht.2.1)

theorem targetExponent_eq (total : ℤ) :
    Format.binary64.targetExponent total = max (total - 53) (-1074) := rfl

/-- The exponent that a significand is shifted to, by its number of bits. -/
theorem unitExponent_target (m : ℕ) (e : ℤ) (hx : Places m x accuracy)
    (he : e ≤ Format.binary64.targetExponent (totalExponent m e)) :
    UnitExponent (x * 2 ^ e) (Format.binary64.targetExponent (totalExponent m e)) := by
  rw [targetExponent_eq, totalExponent] at *
  generalize ht : max ((m.log2 : ℤ) + 1 + e - 53) (-1074) = t at *
  have hpos : (0 : ℚ) < 2 ^ e := zpow_pos (by norm_num) e
  refine ⟨by omega, ?_, ?_⟩
  · have hm : (m : ℚ) + 1 ≤ 2 ^ ((m.log2 : ℤ) + 1) := by
      exact_mod_cast Nat.succ_le_of_lt (Nat.lt_log2_self (n := m))
    calc x * 2 ^ e < (m + 1) * 2 ^ e := mul_lt_mul_of_pos_right hx.lt hpos
      _ ≤ 2 ^ ((m.log2 : ℤ) + 1) * 2 ^ e := mul_le_mul_of_nonneg_right hm hpos.le
      _ = 2 ^ ((m.log2 : ℤ) + 1 + e) := (zpow_add₀ two_ne_zero_rat _ _).symm
      _ ≤ 2 ^ (t + 53) := zpow_le_zpow_right₀ (by norm_num) (by omega)
  · by_cases hmin : t = -1074
    · exact Or.inl hmin
    · -- Above the least exponent the target is the one that leaves 53 bits.
      right
      have hlog : (m.log2 : ℤ) + e = t + 52 := by omega
      have hm0 : m ≠ 0 := by
        rintro rfl
        simp only [Nat.log2_zero, Nat.cast_zero] at hlog
        omega
      have hm : (2 : ℚ) ^ (m.log2 : ℤ) ≤ m := by
        exact_mod_cast Nat.log2_self_le hm0
      calc (2 : ℚ) ^ (t + 52) = 2 ^ (m.log2 : ℤ) * 2 ^ e := by
            rw [← hlog, zpow_add₀ two_ne_zero_rat]
        _ ≤ m * 2 ^ e := mul_le_mul_of_nonneg_right hm hpos.le
        _ ≤ x * 2 ^ e := mul_le_mul_of_nonneg_right hx.le hpos.le

/-! ## Rounding -/

/-- A rounded significand at the exponent of its last place, carried over when it has a bit too
many. -/
def ofRounded (s : Sign) (r : ℕ) (t : ℤ) : UnpackedFloat :=
  if h : r = 0 then .zero s
  else if r < 2 ^ 53 then .finite s r t (Nat.pos_of_ne_zero h)
  else .finite s (2 ^ 52) (t + 1) (by decide)

theorem shiftToTargetExponent_of_lt {r : ℕ} {t : ℤ} (hr : r < 2 ^ 53) (ht : -1074 ≤ t) :
    shiftToTargetExponent .binary64 r t .exact = (⟨r, false, false⟩, t) := by
  have hlog : r.log2 < 53 := by
    by_cases h : r = 0
    · rw [h, Nat.log2_zero]; decide
    · exact (Nat.log2_lt h).mpr hr
  have hk : (Format.binary64.targetExponent (totalExponent r t) - t).toNat = 0 := by
    rw [targetExponent_eq, totalExponent]
    omega
  rw [shiftToTargetExponent, shiftToExponent, hk]
  simp [HShiftRight.hShiftRight, Nat.repeat, ExtendedMantissa.ofMantissaAndAccuracy]

theorem shiftToTargetExponent_carry {t : ℤ} (ht : -1074 ≤ t) :
    shiftToTargetExponent .binary64 (2 ^ 53) t .exact = (⟨2 ^ 52, false, false⟩, t + 1) := by
  have hk : (Format.binary64.targetExponent (totalExponent (2 ^ 53) t) - t).toNat = 1 := by
    rw [targetExponent_eq, totalExponent, Nat.log2_two_pow]
    omega
  rw [shiftToTargetExponent, shiftToExponent, hk]
  rfl

/-- `u` is the double nearest to the positive number `q`, with the given sign. -/
def RoundsTo (q : ℚ) (s : Sign) (u : UnpackedFloat) : Prop :=
  ∃ r t, UnitExponent q t ∧ NearestEven (q / 2 ^ t) r ∧ u = ofRounded s r t

theorem le_of_unitExponent {q : ℚ} {r : ℕ} {t : ℤ} (ht : UnitExponent q t)
    (hr : NearestEven (q / 2 ^ t) r) : r ≤ 2 ^ 53 := by
  have hbelow : q / 2 ^ t < 2 ^ 53 := by
    rw [div_lt_iff₀ (zpow_pos (by norm_num) t), ← zpow_natCast, ← zpow_add₀ two_ne_zero_rat]
    exact add_comm t 53 ▸ ht.2.1
  exact hr.le_natCast (by exact_mod_cast hbelow.le)

theorem full_of_le {q : ℚ} {r : ℕ} {t : ℤ} (hr : NearestEven (q / 2 ^ t) r)
    (hlow : 2 ^ (t + 52) ≤ q) : 2 ^ 52 ≤ r := by
  have habove : (2 : ℚ) ^ 52 ≤ q / 2 ^ t := by
    rw [le_div_iff₀ (zpow_pos (by norm_num) t), ← zpow_natCast, ← zpow_add₀ two_ne_zero_rat]
    exact add_comm t 52 ▸ hlow
  exact hr.natCast_le (by exact_mod_cast habove)

/-- Rounding gives the nearest double. -/
theorem roundWithAccuracy_roundsTo (s : Sign) (e : ℤ) (hx : Places m x accuracy)
    (he : e ≤ Format.binary64.targetExponent (totalExponent m e)) :
    RoundsTo (x * 2 ^ e) s (roundWithAccuracy .binary64 s m e accuracy) := by
  have hunit := unitExponent_target m e hx he
  set t := Format.binary64.targetExponent (totalExponent m e) with ht
  obtain ⟨k, hk⟩ := Int.eq_ofNat_of_zero_le (show 0 ≤ t - e by omega)
  set em := ExtendedMantissa.ofMantissaAndAccuracy m accuracy >>> k with hem
  have hfirst : shiftToTargetExponent .binary64 m e accuracy = (em, t) := by
    rw [shiftToTargetExponent, ← ht, shiftToExponent, hk, Int.toNat_natCast, ← hem]
    congr 1
    omega
  have hscaled : x * 2 ^ e / 2 ^ t = x / 2 ^ k := by
    have hpow : (2 : ℚ) ^ t = 2 ^ e * 2 ^ k := by
      rw [← zpow_natCast, ← zpow_add₀ two_ne_zero_rat]
      congr 1
      omega
    rw [hpow, mul_comm x, mul_div_mul_left _ _ (zpow_ne_zero e two_ne_zero_rat)]
  have hnear : NearestEven (x * 2 ^ e / 2 ^ t) em.roundedMantissa := by
    rw [hscaled]
    have hplaces : Places (ExtendedMantissa.ofMantissaAndAccuracy m accuracy).mantissa x
        (ExtendedMantissa.ofMantissaAndAccuracy m accuracy).accuracy := by simpa using hx
    exact (places_shiftRight hplaces k).nearestEven
  refine ⟨em.roundedMantissa, t, hunit, hnear, ?_⟩
  rw [roundWithAccuracy, hfirst]
  dsimp only
  -- The second shift does nothing unless rounding has carried into a new bit.
  rcases (le_of_unitExponent hunit hnear).lt_or_eq with hlt | heq
  · rw [shiftToTargetExponent_of_lt hlt hunit.1, ofRounded]
    dsimp only
    by_cases hzero : em.roundedMantissa = 0
    · rw [dif_pos hzero, dif_pos hzero]
    · rw [dif_neg hzero, dif_neg hzero, if_pos hlt]
  · rw [heq, shiftToTargetExponent_carry hunit.1]
    rfl

theorem log2_shiftLeft {m : ℕ} (hm : 0 < m) (k : ℕ) : (m <<< k).log2 = m.log2 + k := by
  rw [Nat.shiftLeft_eq, Nat.log2_eq_iff (Nat.mul_pos hm (Nat.two_pow_pos k)).ne']
  constructor
  · rw [pow_add]
    exact Nat.mul_le_mul_right _ (Nat.log2_self_le hm.ne')
  · rw [add_right_comm, pow_add]
    exact Nat.mul_lt_mul_of_pos_right Nat.lt_log2_self (Nat.two_pow_pos k)

/-- Rounding a significand that may have too few bits first fills it up. -/
theorem round_roundsTo (s : Sign) {m : ℕ} (hm : 0 < m) (e : ℤ) :
    RoundsTo (m * 2 ^ e) s (round .binary64 s m e) := by
  rw [UnpackedFloat.round, decreaseExponent]
  dsimp only
  generalize ht : Format.binary64.targetExponent (totalExponent m e) = t
  generalize hk : (e - t).toNat = k
  have hvalue : ((m <<< k : ℕ) : ℚ) * 2 ^ (e - k) = m * 2 ^ e := by
    rw [Nat.shiftLeft_eq, Nat.cast_mul, Nat.cast_pow, Nat.cast_ofNat, ← zpow_natCast, mul_assoc,
      ← zpow_add₀ two_ne_zero_rat]
    congr 2
    omega
  have htotal : totalExponent (m <<< k) (e - k) = totalExponent m e := by
    rw [totalExponent, totalExponent, log2_shiftLeft hm]
    omega
  rw [← hvalue]
  apply roundWithAccuracy_roundsTo s (e - k) (show Places (m <<< k) _ .exact from rfl)
  rw [htotal, ht]
  omega

end BenchTables.Binary64
