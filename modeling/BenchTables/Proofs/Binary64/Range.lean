import BenchTables.Proofs.Binary64.Quotient

/-!
# The range of doubles

Rounding does not go beyond a double that the number does not exceed (`RoundsTo.le`), and does not
fall below a power of two that it reaches (`RoundsTo.two_pow_le`).  So a number within the range of
doubles is rounded to one of them, and one beyond it to an infinity
(`RoundsTo.isDouble_or_infinity`).
-/

open Float.Model Float.Model.UnpackedFloat

namespace BenchTables.Binary64

open Decimal (NearestEven)

variable {q : ℚ} {s : Sign} {u : UnpackedFloat} {m r : ℕ} {e t : ℤ}

/-- What finite doubles unpack to. -/
inductive IsDouble : UnpackedFloat → Prop
  | zero (s : Sign) : IsDouble (.zero s)
  | finite (s : Sign) {m : ℕ} {e : ℤ} (h : Canonical m e) : IsDouble (.finite s m e h.pos)

/-- The absolute value of what is finite. -/
def magnitude : UnpackedFloat → ℚ
  | .finite _ m e _ => m * 2 ^ e
  | _ => 0

/-! ## Packing -/

theorem IsDouble.unpack_pack (h : IsDouble u) : (Float.Model.pack u).unpack = u := by
  cases h with
  | zero s => cases s <;> rfl
  | finite s h => exact unpack_pack_finite s h

theorem unpack_pack_infinity (s : Sign) :
    (Float.Model.pack (.infinity s)).unpack = .infinity s := by
  cases s <;> rfl

theorem IsDouble.of_unpack {f : Float.Model} (h : f.unpack.isFinite) : IsDouble f.unpack := by
  cases hf : f.unpack with
  | infinity s => rw [hf] at h; cases h
  | notANumber => rw [hf] at h; cases h
  | zero s => exact .zero s
  | finite s m e hm => exact .finite s (Canonical.of_unpack hf)

theorem IsDouble.isFinite (h : IsDouble u) : u.isFinite := by
  cases h <;> rfl

/-- The powers of two that have all bits of a significand. -/
theorem canonical_two_pow (hmin : -1074 ≤ e) (hmax : e ≤ 971) : Canonical (2 ^ 52) e :=
  ⟨by decide, by decide, hmin, hmax, Or.inr le_rfl⟩

/-- The greatest double. -/
theorem canonical_greatest : Canonical (2 ^ 53 - 1) 971 :=
  ⟨by decide, by decide, by decide, by decide, Or.inr (by decide)⟩

/-- An exponent above the greatest one is packed as an infinity. -/
theorem pack_of_lt (s : Sign) (hm : 0 < m) (he : 971 < e) :
    Float.Model.pack (.finite s m e hm) = Float.Model.pack (.infinity s) := by
  have hlarge : 2 ^ 11 ≤ (e + 1023 + 52).toNat + 1 := by omega
  have hpack : UnpackedFloat.pack .binary64 (.finite s m e hm) =
      UnpackedFloat.pack .binary64 (.infinity s) := by
    change (if 2 ^ 11 ≤ (e + 1023 + 52).toNat + 1 then packedInfinity .binary64 s else _) = _
    rw [if_pos hlarge]
    rfl
  exact Eq.mpr (Float.Model.mk.injEq ..) (congrArg UInt64.ofBitVec hpack)

theorem two_pow_pos (t : ℤ) : (0 : ℚ) < 2 ^ t := zpow_pos (by norm_num) t

theorem IsDouble.magnitude_le (h : IsDouble u) :
    magnitude u ≤ ((2 ^ 53 - 1 : ℕ) : ℚ) * 2 ^ (971 : ℤ) := by
  cases h with
  | zero s => exact mul_nonneg (Nat.cast_nonneg _) (two_pow_pos _).le
  | @finite s m e h =>
    have hm : m ≤ 2 ^ 53 - 1 := Nat.le_sub_one_of_lt h.lt
    exact mul_le_mul (by exact_mod_cast hm)
      (zpow_le_zpow_right₀ (by norm_num) h.le_maxExponent) (two_pow_pos e).le (Nat.cast_nonneg _)

/-! ## Rounded significands -/

theorem magnitude_ofRounded (s : Sign) (t : ℤ) (hr : r ≤ 2 ^ 53) :
    magnitude (ofRounded s r t) = r * 2 ^ t := by
  by_cases hzero : r = 0
  · subst hzero
    rw [Nat.cast_zero, zero_mul]
    rfl
  by_cases hlt : r < 2 ^ 53
  · unfold ofRounded
    rw [dif_neg hzero, if_pos hlt]
    rfl
  · -- A significand that is carried over is the least one with a bit too many.
    obtain rfl : r = 2 ^ 53 := by omega
    show ((2 ^ 52 : ℕ) : ℚ) * 2 ^ (t + 1) = _
    rw [zpow_add₀ two_ne_zero_rat, zpow_one]
    push_cast
    ring

theorem sign_ofRounded {s' : Sign} {hm : 0 < m} (h : ofRounded s r t = .finite s' m e hm) :
    s' = s := by
  unfold ofRounded at h
  by_cases hzero : r = 0
  · rw [dif_pos hzero] at h
    cases h
  by_cases hlt : r < 2 ^ 53
  · rw [dif_neg hzero, if_pos hlt] at h
    cases h
    rfl
  · rw [dif_neg hzero, if_neg hlt] at h
    cases h
    rfl

/-- Rounding gives a double, unless its exponent comes to lie above the greatest one. -/
theorem isDouble_ofRounded (s : Sign) (ht : UnitExponent q t) (hr : NearestEven (q / 2 ^ t) r)
    (hrange : r < 2 ^ 53 ∧ t ≤ 971 ∨ t ≤ 970) : IsDouble (ofRounded s r t) := by
  have hle := le_of_unitExponent ht hr
  have hmin := ht.1
  by_cases hzero : r = 0
  · subst hzero
    exact .zero s
  rcases hle.lt_or_eq with hlt | rfl
  · have h : Canonical r t := ⟨Nat.pos_of_ne_zero hzero, hlt, hmin, by omega,
      ht.2.2.imp_right (full_of_le hr)⟩
    rw [ofRounded_of_lt h]
    exact .finite s h
  · have h : Canonical (2 ^ 52) (t + 1) := canonical_two_pow (by omega) (by omega)
    exact .finite s h

theorem RoundsTo.isDouble_or_pack_eq (h : RoundsTo q s u) :
    IsDouble u ∨ Float.Model.pack u = Float.Model.pack (.infinity s) := by
  obtain ⟨r, t, ht, hr, rfl⟩ := h
  by_cases hrange : r < 2 ^ 53 ∧ t ≤ 971 ∨ t ≤ 970
  · exact Or.inl (isDouble_ofRounded s ht hr hrange)
  · right
    have hpos : r ≠ 0 := by
      rintro rfl
      -- Above the least exponent a significand is not rounded to zero.
      rcases ht.2.2 with rfl | hfull
      · omega
      · exact absurd (full_of_le hr hfull) (by decide)
    unfold ofRounded
    rw [dif_neg hpos]
    by_cases hlt : r < 2 ^ 53
    · rw [if_pos hlt]
      exact pack_of_lt s _ (by omega)
    · rw [if_neg hlt]
      exact pack_of_lt s _ (by omega)

theorem RoundsTo.isDouble_or_infinity (h : RoundsTo q s u) :
    IsDouble u ∨ (Float.Model.pack u).unpack = .infinity s := by
  rcases h.isDouble_or_pack_eq with hdouble | hpack
  · exact Or.inl hdouble
  · right
    rw [hpack]
    exact unpack_pack_infinity s

/-! ## Bounds -/

theorem UnitExponent.le_of_le (ht : UnitExponent q t) (h : Canonical m e) (hq : q ≤ m * 2 ^ e) :
    t ≤ e :=
  ht.le_of_lt h.minExponent_le (hq.trans_lt h.unitExponent.2.1)

/-- A number that does not exceed a double is rounded to one that does not, either. -/
theorem RoundsTo.le (hu : RoundsTo q s u) (h : Canonical m e) (hq : q ≤ m * 2 ^ e) :
    IsDouble u ∧ magnitude u ≤ m * 2 ^ e := by
  obtain ⟨r, t, ht, hr, rfl⟩ := hu
  have hle := le_of_unitExponent ht hr
  have hte := ht.le_of_le h hq
  obtain ⟨k, hk⟩ := Int.eq_ofNat_of_zero_le (show 0 ≤ e - t by omega)
  -- In units of the last place the double is a whole number.
  have hunits : (m : ℚ) * 2 ^ e = ((m * 2 ^ k : ℕ) : ℚ) * 2 ^ t := by
    rw [show e = k + t by omega, zpow_add₀ two_ne_zero_rat, zpow_natCast]
    push_cast
    ring
  have hrm : r ≤ m * 2 ^ k := by
    apply hr.le_natCast
    rw [div_le_iff₀ (two_pow_pos t), ← hunits]
    exact hq
  have hbound : (r : ℚ) * 2 ^ t ≤ m * 2 ^ e := by
    rw [hunits]
    exact mul_le_mul_of_nonneg_right (by exact_mod_cast hrm) (two_pow_pos t).le
  refine ⟨isDouble_ofRounded s ht hr ?_, by rwa [magnitude_ofRounded s t hle]⟩
  have hmax := h.le_maxExponent
  by_cases hsame : t = e
  · left
    obtain rfl : k = 0 := by omega
    rw [pow_zero, mul_one] at hrm
    exact ⟨hrm.trans_lt h.lt, by omega⟩
  · right
    omega

/-- A number that reaches a power of two is rounded to one that reaches it. -/
theorem RoundsTo.two_pow_le (hu : RoundsTo q s u) {j : ℤ} (hj : -1074 ≤ j) (hq : 2 ^ j ≤ q) :
    2 ^ j ≤ magnitude u := by
  obtain ⟨r, t, ht, hr, rfl⟩ := hu
  rw [magnitude_ofRounded s t (le_of_unitExponent ht hr)]
  by_cases htj : t ≤ j
  · obtain ⟨k, hk⟩ := Int.eq_ofNat_of_zero_le (show 0 ≤ j - t by omega)
    have hunits : (2 : ℚ) ^ j = ((2 ^ k : ℕ) : ℚ) * 2 ^ t := by
      rw [show j = k + t by omega, zpow_add₀ two_ne_zero_rat, zpow_natCast]
      push_cast
      rfl
    have hkr : 2 ^ k ≤ r := by
      apply hr.natCast_le
      rw [le_div_iff₀ (two_pow_pos t), ← hunits]
      exact hq
    rw [hunits]
    exact mul_le_mul_of_nonneg_right (by exact_mod_cast hkr) (two_pow_pos t).le
  · -- The significand is full, so that it alone is more than the power.
    have hfull : 2 ^ 52 ≤ r := full_of_le hr (ht.2.2.resolve_left (by omega))
    calc (2 : ℚ) ^ j ≤ 2 ^ t := zpow_le_zpow_right₀ (by norm_num) (by omega)
      _ = 1 * 2 ^ t := (one_mul _).symm
      _ ≤ r * 2 ^ t := mul_le_mul_of_nonneg_right
          (by exact_mod_cast (show 1 ≤ r by omega)) (two_pow_pos t).le

end BenchTables.Binary64
