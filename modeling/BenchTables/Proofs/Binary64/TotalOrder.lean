import BenchTables.Condensed.Tables
import BenchTables.Proofs.Binary64.Range
import Mathlib.Algebra.Order.Floor.Semifield
import Mathlib.Data.Rat.Floor

/-!
# The total order of doubles

Below its sign bit a double has the bits of its exponent and then those of its significand, so that
magnitudes are ordered as these bits are (`magnitude_le_of_lowBits`).  The word nearest to a double
is half a unit above its magnitude, cut off (`toNat_nearestUInt64`), and so of two doubles in their
total order the first has no greater a word (`nearestUInt64_le`).
-/

open Float.Model Float.Model.UnpackedFloat

namespace BenchTables.Binary64

variable {f g : Float.Model} {x y : Float}

/-! ## The fields of a double -/

/-- The bits of a double without its sign. -/
def lowBits (f : Float.Model) : ℕ :=
  f.toBits.toNat % 2 ^ 63

theorem toNat_unpackMantissa (f : Float.Model) :
    (@unpackMantissa .binary64 f.toBits.toBitVec).toNat = lowBits f % 2 ^ 52 := by
  have hbits : (@unpackMantissa .binary64 f.toBits.toBitVec).toNat =
      f.toBits.toNat >>> 0 % 2 ^ 52 := by
    rw [unpackMantissa, BitVec.toNat_cast, BitVec.extractLsb_toNat]
    rfl
  rw [hbits, lowBits, Nat.shiftRight_zero]
  omega

theorem toNat_unpackExponent (f : Float.Model) :
    (@unpackExponent .binary64 f.toBits.toBitVec).toNat = lowBits f / 2 ^ 52 := by
  have hbits : (@unpackExponent .binary64 f.toBits.toBitVec).toNat =
      f.toBits.toNat >>> 52 % 2 ^ 11 := by
    rw [unpackExponent, BitVec.toNat_cast, BitVec.extractLsb_toNat]
    rfl
  rw [hbits, lowBits, Nat.shiftRight_eq_div_pow]
  omega

theorem ofBitVec_unpackSign (f : Float.Model) :
    Sign.ofBitVec (@unpackSign .binary64 f.toBits.toBitVec) =
      if f.toBits.toNat < 2 ^ 63 then .positive else .negative := by
  have hbits : (@unpackSign .binary64 f.toBits.toBitVec).toNat =
      f.toBits.toNat >>> 63 % 2 ^ 1 := by
    unfold unpackSign
    rw [BitVec.toNat_cast, BitVec.extractLsb_toNat]
    rfl
  rw [Nat.shiftRight_eq_div_pow] at hbits
  have hlt := f.toBits.toNat_lt
  split
  next hlow =>
    have hzero : @unpackSign .binary64 f.toBits.toBitVec = 0#1 := by
      apply BitVec.eq_of_toNat_eq
      change _ = 0
      omega
    rw [hzero]
    rfl
  next hhigh =>
    have hone : @unpackSign .binary64 f.toBits.toBitVec = 1#1 := by
      apply BitVec.eq_of_toNat_eq
      change _ = 1
      omega
    rw [hone]
    rfl

/-- The sign of what a double unpacks to; what is no number has none. -/
def signOf? : UnpackedFloat → Option Sign
  | .notANumber => none
  | .infinity s | .zero s | .finite s _ _ _ => some s

theorem signOf?_unpack (f : Float.Model) :
    signOf? f.unpack = none ∨
      signOf? f.unpack = some (if f.toBits.toNat < 2 ^ 63 then .positive else .negative) := by
  rw [← ofBitVec_unpackSign]
  unfold Float.Model.unpack UnpackedFloat.unpack
  dsimp only
  by_cases hones : @unpackExponent .binary64 f.toBits.toBitVec = -1#11
  · rw [if_pos hones]
    split
    · exact Or.inr rfl
    · exact Or.inl rfl
  right
  rw [if_neg hones]
  by_cases hzero : @unpackExponent .binary64 f.toBits.toBitVec = 0#11
  · rw [if_pos hzero]
    by_cases hnone : @unpackMantissa .binary64 f.toBits.toBitVec = 0#52
    · rw [dif_pos hnone]
      rfl
    · rw [dif_neg hnone]
      rfl
  · rw [if_neg hzero]
    rfl

/-- Rounding keeps the sign. -/
theorem signOf?_of_roundsTo {q : ℚ} {s : Sign} {u : UnpackedFloat} (h : RoundsTo q s u) :
    signOf? u = some s := by
  obtain ⟨r, t, -, -, rfl⟩ := h
  unfold ofRounded
  by_cases hzero : r = 0
  · rw [dif_pos hzero]
    rfl
  rw [dif_neg hzero]
  by_cases hlt : r < 2 ^ 53
  · rw [if_pos hlt]
    rfl
  · rw [if_neg hlt]
    rfl

/-! ## Magnitudes -/

/-- The magnitude that bits without a sign stand for, in units of the least positive double. -/
def unitsOf (low : ℕ) : ℕ :=
  if low / 2 ^ 52 = 0 then low % 2 ^ 52 else (2 ^ 52 + low % 2 ^ 52) * 2 ^ (low / 2 ^ 52 - 1)

/-- An exponent that is one greater makes up for all of the significand. -/
theorem strictMono_unitsOf : StrictMono unitsOf := by
  apply strictMono_nat_of_lt_succ
  intro low
  unfold unitsOf
  by_cases hcarry : (low + 1) % 2 ^ 52 = 0
  · have hexponent : (low + 1) / 2 ^ 52 = low / 2 ^ 52 + 1 := by omega
    have hfull : low % 2 ^ 52 = 2 ^ 52 - 1 := by omega
    rw [hcarry, hexponent, hfull, if_neg (Nat.succ_ne_zero _), Nat.add_zero, Nat.add_sub_cancel]
    split
    next hzero => rw [hzero, pow_zero]; decide
    next hpos =>
      obtain ⟨k, hk⟩ := Nat.exists_eq_succ_of_ne_zero hpos
      rw [hk, Nat.succ_eq_add_one, Nat.add_sub_cancel]
      calc (2 ^ 52 + (2 ^ 52 - 1)) * 2 ^ k
        _ < 2 ^ 52 * 2 * 2 ^ k := Nat.mul_lt_mul_of_pos_right (by decide) (Nat.two_pow_pos k)
        _ = 2 ^ 52 * 2 ^ (k + 1) := by rw [Nat.mul_assoc, ← Nat.pow_succ']
  · have hexponent : (low + 1) / 2 ^ 52 = low / 2 ^ 52 := by omega
    have hnext : low % 2 ^ 52 < (low + 1) % 2 ^ 52 := by omega
    rw [hexponent]
    split
    · exact hnext
    · exact Nat.mul_lt_mul_of_pos_right (Nat.add_lt_add_left hnext _) (Nat.two_pow_pos _)

/-- What bits stand for: an infinity or no number where the exponent has all its bits. -/
theorem unpack_cases (f : Float.Model) :
    (lowBits f / 2 ^ 52 = 2047 ∧ f.unpack.isFinite = false) ∨
      lowBits f / 2 ^ 52 ≠ 2047 ∧ f.unpack.isFinite ∧
        magnitude f.unpack = unitsOf (lowBits f) * 2 ^ (-1074 : ℤ) := by
  have hmantissa := toNat_unpackMantissa f
  have hexponent := toNat_unpackExponent f
  unfold Float.Model.unpack UnpackedFloat.unpack unitsOf
  dsimp only
  by_cases hones : @unpackExponent .binary64 f.toBits.toBitVec = -1#11
  · left
    rw [hones] at hexponent
    rw [if_pos hones]
    refine ⟨hexponent.symm, ?_⟩
    split
    · rfl
    · rfl
  right
  have hexponent_ne : lowBits f / 2 ^ 52 ≠ 2047 := by
    rw [← hexponent]
    exact fun h => hones (BitVec.eq_of_toNat_eq h)
  rw [if_neg hones]
  refine ⟨hexponent_ne, ?_⟩
  by_cases hzero : @unpackExponent .binary64 f.toBits.toBitVec = 0#11
  · rw [hzero] at hexponent
    change 0 = _ at hexponent
    rw [if_pos hzero, if_pos hexponent.symm, ← hmantissa]
    by_cases hnone : @unpackMantissa .binary64 f.toBits.toBitVec = 0#52
    · rw [dif_pos hnone, hnone]
      exact ⟨rfl, (zero_mul _).symm⟩
    · rw [dif_neg hnone]
      refine ⟨rfl, ?_⟩
      rw [hzero]
      rfl
  · have hpos : lowBits f / 2 ^ 52 ≠ 0 := by
      rw [← hexponent]
      exact fun h => hzero (BitVec.eq_of_toNat_eq h)
    rw [if_neg hzero, if_neg hpos]
    refine ⟨rfl, ?_⟩
    change ((1#1 ++ @unpackMantissa .binary64 f.toBits.toBitVec).toNat : ℚ) *
      2 ^ (((@unpackExponent .binary64 f.toBits.toBitVec).toNat : ℤ) - 1075) = _
    rw [toNat_implicitBit_append, hexponent, hmantissa]
    obtain ⟨k, hk⟩ := Nat.exists_eq_succ_of_ne_zero hpos
    rw [hk, Nat.cast_mul, mul_assoc]
    congr 1
    rw [Nat.succ_eq_add_one, Nat.add_sub_cancel, Nat.cast_pow, Nat.cast_ofNat, ← zpow_natCast,
      ← zpow_add₀ two_ne_zero_rat]
    congr 1
    push_cast
    omega

theorem lowBits_lt (f : Float.Model) : lowBits f < 2 ^ 63 :=
  Nat.mod_lt _ (by decide)

/-- Below the bits of a finite double there are those of finite doubles of smaller magnitude. -/
theorem magnitude_le_of_lowBits (hg : g.unpack.isFinite) (h : lowBits f ≤ lowBits g) :
    f.unpack.isFinite ∧ magnitude f.unpack ≤ magnitude g.unpack := by
  rcases unpack_cases g with ⟨-, hnot⟩ | ⟨hexponent, -, hmagnitude⟩
  · rw [hnot] at hg
    cases hg
  rcases unpack_cases f with ⟨hones, -⟩ | ⟨-, hf, hmagnitude'⟩
  · have hlt := lowBits_lt g
    omega
  · rw [hmagnitude, hmagnitude']
    have hunits : (unitsOf (lowBits f) : ℚ) ≤ unitsOf (lowBits g) := by
      exact_mod_cast strictMono_unitsOf.monotone h
    exact ⟨hf, mul_le_mul_of_nonneg_right hunits (two_pow_pos _).le⟩

/-! ## Nearest words -/

theorem roundHalfUp_eq_floor (num : ℕ) {den : ℕ} (hden : 0 < den) :
    Decimal.roundHalfUp num den = ⌊(num : ℚ) / den + 1 / 2⌋₊ := by
  have hpos : (den : ℚ) ≠ 0 := by exact_mod_cast hden.ne'
  have hsum : (num : ℚ) / den + 1 / 2 = ((2 * num + den : ℕ) : ℚ) / (2 * den : ℕ) := by
    push_cast
    field_simp
  rw [hsum, Nat.floor_div_eq_div, Decimal.roundHalfUp]

theorem toNat_ofNatClamp (n : ℕ) : (UInt64.ofNatClamp n).toNat = min n (2 ^ 64 - 1) := by
  have hsize : UInt64.size = 2 ^ 64 := rfl
  unfold UInt64.ofNatClamp
  split
  · rw [UInt64.toNat_ofNatLT]
    omega
  · rw [UInt64.toNat_ofNatLT]
    omega

/-- The word nearest to a finite double that is not negative. -/
theorem toNat_nearestUInt64 (hx : x.isFinite) (hsign : signOf? x.toModel.unpack = some .positive) :
    (Decimal.nearestUInt64 x).toNat = min ⌊magnitude x.toModel.unpack + 1 / 2⌋₊ (2 ^ 64 - 1) := by
  have hdouble := IsDouble.of_unpack hx
  unfold Decimal.nearestUInt64 Decimal.BinaryValue.ofFloat
  generalize x.toModel.unpack = u at *
  cases hdouble with
  | zero s =>
    cases hsign
    decide +kernel
  | @finite s m e h =>
    cases hsign
    dsimp only
    rw [if_neg (by decide), toNat_ofNatClamp,
      roundHalfUp_eq_floor _ (Decimal.BinaryValue.fraction_den_pos m e), Decimal.fraction_value]
    rfl

theorem nearestUInt64_of_not_positive (hsign : signOf? x.toModel.unpack ≠ some .positive) :
    Decimal.nearestUInt64 x = 0 := by
  unfold Decimal.nearestUInt64 Decimal.BinaryValue.ofFloat
  generalize x.toModel.unpack = u at *
  cases u with
  | notANumber => rfl
  | infinity s =>
    cases s with
    | positive => exact absurd rfl hsign
    | negative => rfl
  | zero s =>
    cases s with
    | positive => exact absurd rfl hsign
    | negative => rfl
  | finite s m e hm =>
    cases s with
    | positive => exact absurd rfl hsign
    | negative => rfl

/-- A double with a positive sign has no sign bit, so that its bits are its key. -/
theorem lt_of_signOf? (h : signOf? f.unpack = some .positive) : f.toBits.toNat < 2 ^ 63 := by
  rcases signOf?_unpack f with hnone | hsome
  · rw [hnone] at h
    cases h
  · rw [hsome] at h
    by_contra hhigh
    rw [if_neg hhigh] at h
    cases h

theorem signOf?_of_lt (hf : f.unpack.isFinite) (h : f.toBits.toNat < 2 ^ 63) :
    signOf? f.unpack = some .positive := by
  rcases signOf?_unpack f with hnone | hsome
  · cases hunpack : f.unpack <;> rw [hunpack] at hf hnone <;> cases hf <;> cases hnone
  · rw [hsome, if_pos h]

/-- Of two doubles in their total order the first has no greater a word. -/
theorem nearestUInt64_le (hy : y.isFinite) (h : totalOrderKey x ≤ totalOrderKey y) :
    Decimal.nearestUInt64 x ≤ Decimal.nearestUInt64 y := by
  rw [UInt64.le_iff_toNat_le]
  by_cases hx : signOf? x.toModel.unpack = some .positive
  · -- A key that is not negative is that of a positive sign, and both keys are the bits.
    have hlow : x.toModel.toBits.toNat < 2 ^ 63 := lt_of_signOf? hx
    change (if x.toModel.toBits.toNat < 2 ^ 63 then (x.toModel.toBits.toNat : ℤ)
        else 2 ^ 63 - 1 - x.toModel.toBits.toNat) ≤
      if y.toModel.toBits.toNat < 2 ^ 63 then (y.toModel.toBits.toNat : ℤ)
        else 2 ^ 63 - 1 - y.toModel.toBits.toNat at h
    have hbits : x.toModel.toBits.toNat ≤ y.toModel.toBits.toNat ∧
        y.toModel.toBits.toNat < 2 ^ 63 := by
      split at h <;> split at h <;> omega
    have hsign := signOf?_of_lt hy hbits.2
    obtain ⟨hfinite, hmagnitude⟩ := magnitude_le_of_lowBits (f := x.toModel) hy (by
      rw [lowBits, lowBits, Nat.mod_eq_of_lt hlow, Nat.mod_eq_of_lt hbits.2]
      exact hbits.1)
    rw [toNat_nearestUInt64 hfinite hx, toNat_nearestUInt64 hy hsign]
    exact min_le_min_right _ (Nat.floor_le_floor (add_le_add_left hmagnitude _))
  · rw [nearestUInt64_of_not_positive hx]
    exact Nat.zero_le _

/-! ## Equal doubles -/

/-- Finite doubles that stand for the same, with the same sign, have the same bits. -/
theorem eq_of_unpack_eq (hx : x.isFinite) (h : x.toModel.unpack = y.toModel.unpack) : x = y := by
  have hfinite : x.toModel.unpack.isFinite := hx
  have hfinite' : y.toModel.unpack.isFinite := h ▸ hfinite
  have hlow : lowBits x.toModel = lowBits y.toModel := by
    rcases unpack_cases x.toModel with ⟨-, hnot⟩ | ⟨-, -, hmagnitude⟩
    · rw [hnot] at hfinite
      cases hfinite
    rcases unpack_cases y.toModel with ⟨-, hnot⟩ | ⟨-, -, hmagnitude'⟩
    · rw [hnot] at hfinite'
      cases hfinite'
    rw [h, hmagnitude'] at hmagnitude
    have hunits := mul_right_cancel₀ (two_pow_pos (-1074)).ne' hmagnitude
    exact (strictMono_unitsOf.injective (by exact_mod_cast hunits)).symm
  have hsign : x.toModel.toBits.toNat < 2 ^ 63 ↔ y.toModel.toBits.toNat < 2 ^ 63 := by
    constructor
    · intro hlt
      exact lt_of_signOf? (h ▸ signOf?_of_lt hfinite hlt)
    · intro hlt
      exact lt_of_signOf? (h.symm ▸ signOf?_of_lt hfinite' hlt)
  have hbits : x.toModel.toBits = y.toModel.toBits := by
    have hx' := x.toModel.toBits.toNat_lt
    have hy' := y.toModel.toBits.toNat_lt
    rw [← UInt64.toNat_inj]
    unfold lowBits at hlow
    omega
  obtain ⟨f, hvalid⟩ := x
  obtain ⟨g, hvalid'⟩ := y
  cases hbits
  rfl

end BenchTables.Binary64
