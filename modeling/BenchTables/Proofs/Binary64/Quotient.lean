import BenchTables.Proofs.Binary64.Packing

/-!
# Quotients of doubles

The quotient of two finite doubles is the double nearest to the quotient of their values
(`div_roundsTo`), and a natural number below `2 ^ 53` is itself a double (`ofNat_value`).  A double
that lies within half a unit of a number is the one nearest to it (`RoundsTo.eq_of_close`).
-/

open Float.Model Float.Model.UnpackedFloat

namespace BenchTables.Binary64

open Decimal (NearestEven nearestEven_of_abs_lt nearestEven_natCast natCast_div div_lt_half
  half_lt_div div_eq_half div_lt_one_of_lt)

variable {q : ℚ} {s : Sign} {u : UnpackedFloat} {m : ℕ} {e : ℤ}

/-! ## What is nearest to a number -/

theorem RoundsTo.unique {v : UnpackedFloat} (hu : RoundsTo q s u) (hv : RoundsTo q s v) :
    u = v := by
  obtain ⟨r, t, ht, hr, rfl⟩ := hu
  obtain ⟨r', t', ht', hr', rfl⟩ := hv
  obtain rfl := ht.unique ht'
  rw [hr.unique hr']

theorem ofRounded_of_lt (h : Canonical m e) : ofRounded s m e = .finite s m e h.pos := by
  rw [ofRounded, dif_neg h.pos.ne', if_pos h.lt]

/-- A double less than half a unit away is the nearest one, if the unit is the same there. -/
theorem RoundsTo.eq_of_close (hu : RoundsTo q s u) (h : Canonical m e) (hunit : UnitExponent q e)
    (hclose : |q - m * 2 ^ e| < 2 ^ e / 2) : u = .finite s m e h.pos := by
  refine hu.unique ⟨m, e, hunit, nearestEven_of_abs_lt ?_, (ofRounded_of_lt h).symm⟩
  have hpos : (0 : ℚ) < 2 ^ e := zpow_pos (by norm_num) e
  have hscale : q / 2 ^ e - m = (q - m * 2 ^ e) / 2 ^ e := by
    rw [sub_div, mul_div_cancel_right₀ _ hpos.ne']
  rw [hscale, abs_div, abs_of_pos hpos, div_lt_iff₀ hpos]
  linarith

theorem Canonical.unitExponent (h : Canonical m e) : UnitExponent (m * 2 ^ e) e := by
  have hpos : (0 : ℚ) < 2 ^ e := zpow_pos (by norm_num) e
  refine ⟨h.minExponent_le, ?_, h.full.imp_right fun hfull => ?_⟩
  · rw [add_comm, zpow_add₀ two_ne_zero_rat]
    exact mul_lt_mul_of_pos_right (by exact_mod_cast h.lt) hpos
  · rw [add_comm, zpow_add₀ two_ne_zero_rat]
    exact mul_le_mul_of_nonneg_right (by exact_mod_cast hfull) hpos.le

theorem RoundsTo.eq_of_value (hu : RoundsTo (m * 2 ^ e) s u) (h : Canonical m e) :
    u = .finite s m e h.pos := by
  refine hu.eq_of_close h h.unitExponent ?_
  rw [sub_self, abs_zero]
  exact half_pos (zpow_pos (by norm_num) e)

/-- What comes out of rounding a number that is in range and not too small: a finite double whose
significand is the nearest one, up to a carry. -/
theorem RoundsTo.canonical (hu : RoundsTo q s u) (hlow : 2 ^ (-1022 : ℤ) ≤ q)
    (hhigh : q < 2 ^ (1023 : ℤ)) :
    ∃ m e, ∃ h : Canonical m e, u = .finite s m e h.pos ∧
      ∃ r t, UnitExponent q t ∧ NearestEven (q / 2 ^ t) r ∧ (m : ℚ) * 2 ^ e = r * 2 ^ t := by
  obtain ⟨r, t, ht, hr, rfl⟩ := hu
  have hmax : t ≤ 970 := ht.le_of_lt (by decide) hhigh
  have hfull : 2 ^ 52 ≤ r := by
    apply full_of_le hr
    rcases ht.2.2 with rfl | habove
    · -- Even at the least exponent a number that is no subnormal fills the significand.
      exact hlow
    · exact habove
  rcases (le_of_unitExponent ht hr).lt_or_eq with hlt | rfl
  · have h : Canonical r t := ⟨by omega, hlt, ht.1, by omega, Or.inr hfull⟩
    exact ⟨r, t, h, ofRounded_of_lt h, r, t, ht, hr, rfl⟩
  · have hmin := ht.1
    have h : Canonical (2 ^ 52) (t + 1) := ⟨by decide, by decide, by omega, by omega, Or.inr le_rfl⟩
    refine ⟨2 ^ 52, t + 1, h, rfl, 2 ^ 53, t, ht, hr, ?_⟩
    rw [zpow_add₀ two_ne_zero_rat, zpow_one]
    push_cast
    ring

/-! ## Division -/

theorem places_accuracyOfFraction (num : ℕ) {den : ℕ} (hden : 0 < den) :
    Places (num / den) (num / den) (accuracyOfFraction (num % den) den) := by
  have hone := div_lt_one_of_lt hden (Nat.mod_lt num hden)
  rw [natCast_div num hden]
  generalize num / den = k
  generalize num % den = r at hone ⊢
  rw [accuracyOfFraction]
  split
  next h =>
    rw [h, Nat.cast_zero, zero_div, add_zero]
    rfl
  next h =>
    have hr : (0 : ℚ) < r := by exact_mod_cast Nat.pos_of_ne_zero h
    have hfrac : 0 < (r : ℚ) / den := div_pos hr (by exact_mod_cast hden)
    rcases Nat.lt_trichotomy (2 * r) den with hlt | heq | hgt
    · rw [Nat.compare_eq_lt.mpr hlt]
      have hhalf := div_lt_half hden hlt
      exact ⟨by linarith, by linarith⟩
    · rw [Nat.compare_eq_eq.mpr heq, div_eq_half hden heq]
      rfl
    · rw [Nat.compare_eq_gt.mpr hgt]
      have hhalf := half_lt_div hden hgt
      exact ⟨by linarith, by linarith⟩

/-- The quotient of two finite doubles is rounded to the nearest double. -/
theorem div_roundsTo (s₁ s₂ : Sign) {m₁ m₂ : ℕ} (e₁ e₂ : ℤ) (h₁ : 0 < m₁) (h₂ : 0 < m₂) :
    RoundsTo (m₁ * 2 ^ e₁ / (m₂ * 2 ^ e₂)) (s₁ / s₂)
      (UnpackedFloat.div .binary64 (.finite s₁ m₁ e₁ h₁) (.finite s₂ m₂ e₂ h₂)) := by
  change RoundsTo _ _ (roundWithAccuracy .binary64 (s₁ / s₂) (divCore .binary64 m₁ e₁ m₂ e₂).1
    (divCore .binary64 m₁ e₁ m₂ e₂).2.1 (divCore .binary64 m₁ e₁ m₂ e₂).2.2)
  rw [divCore]
  dsimp only
  generalize ht : min (e₁ - e₂) (Format.binary64.targetExponent
    (totalExponent m₁ e₁ - totalExponent m₂ e₂)) = t
  rw [targetExponent_eq, totalExponent, totalExponent] at ht
  obtain ⟨k, hk⟩ := Int.eq_ofNat_of_zero_le (show 0 ≤ e₁ - e₂ - t by omega)
  rw [hk, Int.toNat_natCast]
  have hvalue : (m₁ : ℚ) * 2 ^ e₁ / (m₂ * 2 ^ e₂) = ((m₁ <<< k : ℕ) : ℚ) / m₂ * 2 ^ t := by
    have hpow : (2 : ℚ) ^ e₁ = 2 ^ k * 2 ^ t * 2 ^ e₂ := by
      rw [← zpow_natCast, ← zpow_add₀ two_ne_zero_rat, ← zpow_add₀ two_ne_zero_rat]
      congr 1
      omega
    rw [Nat.shiftLeft_eq, Nat.cast_mul, Nat.cast_pow, Nat.cast_ofNat, hpow, ← mul_assoc,
      mul_div_mul_right _ _ (zpow_ne_zero e₂ two_ne_zero_rat)]
    ring
  rw [hvalue]
  apply roundWithAccuracy_roundsTo _ t (places_accuracyOfFraction (m₁ <<< k) h₂)
  rw [targetExponent_eq, totalExponent]
  by_cases hmin : t ≤ -1074
  · omega
  · -- Above the least exponent the quotient was given enough bits.
    have hbits : m₂.log2 + 53 ≤ m₁.log2 + k := by omega
    have hquot : 2 ^ 52 ≤ m₁ <<< k / m₂ := by
      rw [Nat.le_div_iff_mul_le h₂]
      calc 2 ^ 52 * m₂ ≤ 2 ^ 52 * 2 ^ (m₂.log2 + 1) :=
            Nat.mul_le_mul_left _ Nat.lt_log2_self.le
        _ = 2 ^ (m₂.log2 + 53) := by rw [← pow_add]; congr 1; omega
        _ ≤ 2 ^ (m₁ <<< k).log2 := Nat.pow_le_pow_right (by decide) (by rwa [log2_shiftLeft h₁])
        _ ≤ m₁ <<< k := Nat.log2_self_le (Nat.shiftLeft_pos_iff.mpr h₁).ne'
    have hlog := (Nat.le_log2 (by omega)).mpr hquot
    omega

/-! ## Natural numbers as doubles -/

theorem ofNat_roundsTo {n : ℕ} (hpos : 0 < n) :
    RoundsTo n .positive (UnpackedFloat.ofNat .binary64 n) := by
  have h := round_roundsTo .positive hpos 0
  rw [zpow_zero, mul_one] at h
  rw [UnpackedFloat.ofNat, UnpackedFloat.ofInt, UnpackedFloat.normalize,
    Int.compare_eq_gt.mpr (by omega)]
  exact h

/-- A natural number below `2 ^ 53` is a double. -/
theorem ofNat_value (n : ℕ) (hpos : 0 < n) (hlt : n < 2 ^ 53) :
    ∃ m e, ∃ h : Canonical m e,
      UnpackedFloat.ofNat .binary64 n = .finite .positive m e h.pos ∧ (m : ℚ) * 2 ^ e = n := by
  have hrounds := ofNat_roundsTo hpos
  have hlow : (2 : ℚ) ^ (-1022 : ℤ) ≤ n :=
    calc (2 : ℚ) ^ (-1022 : ℤ) ≤ 2 ^ (0 : ℤ) := zpow_le_zpow_right₀ (by norm_num) (by norm_num)
      _ ≤ n := by rw [zpow_zero]; exact_mod_cast hpos
  have hhigh : (n : ℚ) < 2 ^ (1023 : ℤ) :=
    calc (n : ℚ) < 2 ^ (53 : ℤ) := by exact_mod_cast hlt
      _ ≤ 2 ^ (1023 : ℤ) := zpow_le_zpow_right₀ (by norm_num) (by norm_num)
  obtain ⟨m, e, h, hu, r, t, ht, hr, hvalue⟩ := hrounds.canonical hlow hhigh
  refine ⟨m, e, h, hu, ?_⟩
  -- The unit is at most one, so that the number is a whole number of units.
  have ht0 : t ≤ 0 := ht.le_of_lt (by decide) (by exact_mod_cast hlt)
  obtain ⟨k, hk⟩ := Int.eq_ofNat_of_zero_le (show 0 ≤ -t by omega)
  obtain rfl : t = -(k : ℤ) := by omega
  have hscaled : (n : ℚ) / 2 ^ (-(k : ℤ)) = ((n * 2 ^ k : ℕ) : ℚ) := by
    rw [zpow_neg, div_inv_eq_mul, zpow_natCast]
    push_cast
    rfl
  rw [hscaled] at hr
  rw [hvalue, hr.unique (nearestEven_natCast _), ← hscaled,
    div_mul_cancel₀ _ (zpow_ne_zero _ two_ne_zero_rat)]

end BenchTables.Binary64
