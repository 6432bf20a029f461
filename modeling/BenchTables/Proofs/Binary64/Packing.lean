import BenchTables.Proofs.Binary64.Rounding

/-!
# Packing doubles into bits

The bits of a double hold a canonical significand and exponent.  `Canonical.of_unpack` says that
every finite double unpacks to such a pair, `unpack_pack_finite` that every such pair is packed
without loss.
-/

open Float.Model Float.Model.UnpackedFloat

namespace BenchTables.Binary64

/-- The significands and exponents of finite doubles other than zero. -/
structure Canonical (m : ℕ) (e : ℤ) : Prop where
  pos : 0 < m
  lt : m < 2 ^ 53
  minExponent_le : -1074 ≤ e
  le_maxExponent : e ≤ 971
  full : e = -1074 ∨ 2 ^ 52 ≤ m

theorem toNat_implicitBit_append (b : BitVec 52) : (1#1 ++ b).toNat = 2 ^ 52 + b.toNat := by
  rw [BitVec.toNat_append, ← Nat.shiftLeft_add_eq_or_of_lt b.isLt]
  simp [Nat.shiftLeft_eq]

theorem sign_packComponents (s : Sign) (exponent : BitVec 11) (mantissa : BitVec 52) :
    Sign.ofBitVec (unpackSign (packComponents .binary64 s exponent mantissa)) = s := by
  have hbits : unpackSign (packComponents .binary64 s exponent mantissa) = s.toBitVec := by
    -- The sign is the bit above the exponent and the mantissa.
    unfold unpackSign
    rw [packComponents, BitVec.extractLsb, BitVec.extractLsb'_append_eq_of_le (by decide),
      BitVec.extractLsb'_append_eq_of_le (by decide)]
    cases s <;> rfl
  rw [hbits]
  cases s <;> rfl

theorem finite_congr {s s' : Sign} {m m' : ℕ} {e e' : ℤ} (hm : 0 < m) (hm' : 0 < m') (h₁ : s = s')
    (h₂ : m = m') (h₃ : e = e') :
    (finite s m e hm : UnpackedFloat) = finite s' m' e' hm' := by
  subst h₁ h₂ h₃
  rfl

theorem unpack_packComponents_normal (s : Sign) {exponent : BitVec 11} (mantissa : BitVec 52)
    (hzero : exponent ≠ 0#11) (hones : exponent ≠ -1#11) :
    unpack .binary64 (packComponents .binary64 s exponent mantissa) =
      .finite s (2 ^ 52 + mantissa.toNat) ((exponent.toNat : ℤ) - 1075)
        (Nat.add_pos_left (Nat.two_pow_pos 52) _) := by
  have hexponent : unpackExponent (packComponents .binary64 s exponent mantissa) = exponent :=
    unpackExponent_packComponents
  unfold UnpackedFloat.unpack
  dsimp only
  rw [if_neg (by rwa [hexponent]), if_neg (by rwa [hexponent])]
  apply finite_congr
  · exact sign_packComponents s exponent mantissa
  · rw [unpackMantissa_packComponents]
    exact toNat_implicitBit_append mantissa
  · rw [hexponent]
    rfl

theorem unpack_packComponents_subnormal (s : Sign) {mantissa : BitVec 52}
    (hm : 0 < mantissa.toNat) :
    unpack .binary64 (packComponents .binary64 s 0#11 mantissa) =
      .finite s mantissa.toNat (-1074) hm := by
  have hmantissa : unpackMantissa (packComponents .binary64 s 0#11 mantissa) = mantissa :=
    unpackMantissa_packComponents
  have hexponent : unpackExponent (packComponents .binary64 s 0#11 mantissa) = 0#11 :=
    unpackExponent_packComponents
  have hne : mantissa ≠ 0#52 := by
    rintro rfl
    exact absurd hm (by decide)
  unfold UnpackedFloat.unpack
  dsimp only
  rw [if_neg (by rw [hexponent]; decide), if_pos hexponent, dif_neg (by rwa [hmantissa])]
  apply finite_congr
  · exact sign_packComponents s 0#11 mantissa
  · rw [hmantissa]
  · rw [hexponent]
    rfl

theorem pack_finite (s : Sign) {m : ℕ} {e : ℤ} (h : Canonical m e) :
    pack .binary64 (.finite s m e h.pos) =
      if m.log2 + 1 = 53 then
        packComponents .binary64 s (BitVec.ofNat 11 (e + 1023 + 52).toNat) (BitVec.ofNat 52 m)
      else packComponents .binary64 s 0#11 (BitVec.ofNat 52 m) := by
  have hmax := h.le_maxExponent
  have hsmall : ¬2 ^ 11 ≤ (e + 1023 + 52).toNat + 1 := by omega
  change (if 2 ^ 11 ≤ (e + 1023 + 52).toNat + 1 then packedInfinity .binary64 s else _) = _
  rw [if_neg hsmall]
  rfl

theorem biased_ne {b : ℕ} (hpos : 0 < b) (hlt : b < 2047) :
    BitVec.ofNat 11 b ≠ 0#11 ∧ BitVec.ofNat 11 b ≠ -1#11 := by
  have hb : (BitVec.ofNat 11 b).toNat = b := by
    rw [BitVec.toNat_ofNat, Nat.mod_eq_of_lt (by omega)]
  constructor
  · intro heq
    rw [heq] at hb
    change 0 = b at hb
    omega
  · intro heq
    rw [heq] at hb
    change 2047 = b at hb
    omega

/-- A canonical pair is packed without loss. -/
theorem unpack_pack_finite (s : Sign) {m : ℕ} {e : ℤ} (h : Canonical m e) :
    (Float.Model.pack (.finite s m e h.pos)).unpack = .finite s m e h.pos := by
  change unpack .binary64 (pack .binary64 (.finite s m e h.pos)) = _
  rw [pack_finite s h]
  obtain ⟨hpos, hlt, hmin, hmax, hfull⟩ := h
  obtain ⟨b, hb⟩ := Int.eq_ofNat_of_zero_le (show 0 ≤ e + 1075 by omega)
  have hbiased : (e + 1023 + 52).toNat = b := by omega
  rw [hbiased]
  by_cases hnormal : 2 ^ 52 ≤ m
  · -- The highest bit is left out, and the exponent tells that it was there.
    have hlog : m.log2 + 1 = 53 := by
      have hle := (Nat.le_log2 hpos.ne').mpr hnormal
      have hlt' := (Nat.log2_lt hpos.ne').mpr hlt
      omega
    obtain ⟨hzero, hones⟩ := biased_ne (b := b) (by omega) (by omega)
    have hb' : (BitVec.ofNat 11 b).toNat = b := by
      rw [BitVec.toNat_ofNat, Nat.mod_eq_of_lt (by omega)]
    rw [if_pos hlog, unpack_packComponents_normal s _ hzero hones, hb']
    apply finite_congr
    · rfl
    · rw [BitVec.toNat_ofNat]
      omega
    · omega
  · have hlog : m.log2 + 1 ≠ 53 := by
      have hlt' := (Nat.log2_lt hpos.ne').mpr (Nat.lt_of_not_le hnormal)
      omega
    have hm : (BitVec.ofNat 52 m).toNat = m := by
      rw [BitVec.toNat_ofNat, Nat.mod_eq_of_lt (Nat.lt_of_not_le hnormal)]
    rw [if_neg hlog, unpack_packComponents_subnormal s (by rwa [hm])]
    apply finite_congr
    · rfl
    · exact hm
    · omega

/-- What a finite double unpacks to is canonical. -/
theorem Canonical.of_unpack {f : Float.Model} {s : Sign} {m : ℕ} {e : ℤ} {hm : 0 < m}
    (h : f.unpack = .finite s m e hm) : Canonical m e := by
  have hbits := (@unpackMantissa .binary64 f.toBits.toBitVec).isLt
  have hexp := (@unpackExponent .binary64 f.toBits.toBitVec).isLt
  change _ < 2 ^ 52 at hbits
  change _ < 2 ^ 11 at hexp
  unfold Float.Model.unpack UnpackedFloat.unpack at h
  dsimp only at h
  by_cases hones : @unpackExponent .binary64 f.toBits.toBitVec = -1#11
  · rw [if_pos hones] at h
    by_cases hmantissa : @unpackMantissa .binary64 f.toBits.toBitVec = 0#52
    · rw [if_pos hmantissa] at h
      cases h
    · rw [if_neg hmantissa] at h
      cases h
  rw [if_neg hones] at h
  by_cases hzero : @unpackExponent .binary64 f.toBits.toBitVec = 0#11
  · -- An exponent of zero bits is that of the least normal doubles.
    rw [if_pos hzero] at h
    by_cases hmantissa : @unpackMantissa .binary64 f.toBits.toBitVec = 0#52
    · rw [dif_pos hmantissa] at h
      cases h
    · rw [dif_neg hmantissa, hzero] at h
      injection h with _ hm' he'
      change (0 : ℤ) - 1075 + 1 = e at he'
      exact ⟨hm, by omega, by omega, by omega, Or.inl (by omega)⟩
  · rw [if_neg hzero] at h
    have hexp0 : (@unpackExponent .binary64 f.toBits.toBitVec).toNat ≠ 0 :=
      fun h0 => hzero (BitVec.eq_of_toNat_eq h0)
    have hexp1 : (@unpackExponent .binary64 f.toBits.toBitVec).toNat ≠ 2047 :=
      fun h1 => hones (BitVec.eq_of_toNat_eq h1)
    injection h with _ hm' he'
    rw [toNat_implicitBit_append] at hm'
    change ((@unpackExponent .binary64 f.toBits.toBitVec).toNat : ℤ) - 1075 = e at he'
    exact ⟨hm, by omega, by omega, by omega, Or.inr (by omega)⟩

end BenchTables.Binary64
