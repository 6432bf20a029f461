import BenchTables.Proofs.Binary64.Range

/-!
# Finite doubles

What is not finite stays so: a sum is finite only if both terms are, and a quotient only if the
dividend is.  The other way round a sum can leave the doubles, while a quotient by a double that is
not below one cannot (`isFinite_div_of_one_le`).
-/

open Float.Model Float.Model.UnpackedFloat

namespace BenchTables.Binary64

variable {x y : Float} {a b q : ℚ} {m : ℕ} {e : ℤ}

/-! ## What is not finite -/

theorem isFinite_pack_of_not {u : UnpackedFloat} (h : u.isFinite = false) :
    (Float.Model.pack u).unpack.isFinite = false := by
  cases u with
  | infinity s => rw [unpack_pack_infinity]; rfl
  | notANumber => rfl
  | zero s => cases h
  | finite s m e hm => cases h

theorem unpack_add (x y : Float) : (x + y).toModel.unpack =
    (Float.Model.pack
      (UnpackedFloat.add .binary64 x.toModel.unpack y.toModel.unpack)).unpack := rfl

theorem unpack_div (x y : Float) : (x / y).toModel.unpack =
    (Float.Model.pack
      (UnpackedFloat.div .binary64 x.toModel.unpack y.toModel.unpack)).unpack := rfl

/-- A quotient is told by what its dividend is unpacked to. -/
theorem div_congr (h : x.toModel.unpack = y.toModel.unpack) (z : Float) : x / z = y / z := by
  have hquotient : UnpackedFloat.div .binary64 x.toModel.unpack z.toModel.unpack =
      UnpackedFloat.div .binary64 y.toModel.unpack z.toModel.unpack := by
    rw [h]
  exact congrArg (fun u => Float.ofModel (Float.Model.pack u)) hquotient

theorem unpack_zero : (0.0 : Float).toModel.unpack = .zero .positive := rfl

theorem isFinite_iff (x : Float) : x.isFinite ↔ x.toModel.unpack.isFinite := Iff.rfl

theorem isFinite_of_add (h : (x + y).isFinite) : x.isFinite ∧ y.isFinite := by
  by_contra hnot
  rw [isFinite_iff, isFinite_iff] at hnot
  have hsum : (UnpackedFloat.add .binary64 x.toModel.unpack y.toModel.unpack).isFinite = false := by
    cases hx : x.toModel.unpack <;> cases hy : y.toModel.unpack <;> rw [hx, hy] at hnot <;>
      first
        | rfl
        | exact absurd ⟨rfl, rfl⟩ hnot
        | skip
    -- Infinities of one sign add up to another, those of both to no number.
    next s s' => cases s <;> cases s' <;> rfl
  rw [isFinite_iff, unpack_add, isFinite_pack_of_not hsum] at h
  cases h

theorem isFinite_of_div (h : (x / y).isFinite) : x.isFinite := by
  by_contra hnot
  rw [isFinite_iff] at hnot
  have hquot :
      (UnpackedFloat.div .binary64 x.toModel.unpack y.toModel.unpack).isFinite = false := by
    cases hx : x.toModel.unpack <;> cases hy : y.toModel.unpack <;> rw [hx] at hnot <;>
      first
        | rfl
        | exact absurd rfl hnot
  rw [isFinite_iff, unpack_div, isFinite_pack_of_not hquot] at h
  cases h

/-! ## Quotients -/

/-- A quotient that does not exceed a double is a double that does not exceed it. -/
theorem div_le {s : Sign} {m₂ : ℕ} {e₂ : ℤ} {hm₂ : 0 < m₂} (hx : x.isFinite)
    (hy : y.toModel.unpack = .finite s m₂ e₂ hm₂) (h : Canonical m e)
    (hle : magnitude x.toModel.unpack ≤ m * 2 ^ e * (m₂ * 2 ^ e₂)) :
    IsDouble (x / y).toModel.unpack ∧ magnitude (x / y).toModel.unpack ≤ m * 2 ^ e := by
  have hdivisor : (0 : ℚ) < m₂ * 2 ^ e₂ :=
    mul_pos (by exact_mod_cast hm₂) (two_pow_pos e₂)
  suffices hquot : IsDouble (UnpackedFloat.div .binary64 x.toModel.unpack y.toModel.unpack) ∧
      magnitude (UnpackedFloat.div .binary64 x.toModel.unpack y.toModel.unpack) ≤ m * 2 ^ e by
    rw [unpack_div, hquot.1.unpack_pack]
    exact hquot
  have hdouble := IsDouble.of_unpack hx
  rw [hy]
  generalize x.toModel.unpack = u at hle hdouble
  cases hdouble with
  | zero s₁ => exact ⟨.zero _, mul_nonneg (Nat.cast_nonneg m) (two_pow_pos e).le⟩
  | finite s₁ h₁ =>
    exact (div_roundsTo s₁ s _ e₂ h₁.pos hm₂).le h ((div_le_iff₀ hdivisor).mpr hle)

theorem IsDouble.exists_canonical {u : UnpackedFloat} (h : IsDouble u) :
    ∃ m e, Canonical m e ∧ magnitude u ≤ m * 2 ^ e := by
  cases h with
  | zero s =>
    have hleast : Canonical 1 (-1074) :=
      ⟨by decide, by decide, by decide, by decide, Or.inl rfl⟩
    exact ⟨1, -1074, hleast, mul_nonneg (Nat.cast_nonneg 1) (two_pow_pos _).le⟩
  | finite s h => exact ⟨_, _, h, le_rfl⟩

/-- A finite double stays finite when it is divided by one that is not below one. -/
theorem isFinite_div_of_one_le {s : Sign} {m₂ : ℕ} {e₂ : ℤ} {hm₂ : 0 < m₂} (hx : x.isFinite)
    (hy : y.toModel.unpack = .finite s m₂ e₂ hm₂) (hone : (1 : ℚ) ≤ m₂ * 2 ^ e₂) :
    (x / y).isFinite := by
  obtain ⟨m, e, h, hle⟩ := (IsDouble.of_unpack hx).exists_canonical
  have hwider : (m : ℚ) * 2 ^ e ≤ m * 2 ^ e * (m₂ * 2 ^ e₂) :=
    le_mul_of_one_le_right (mul_nonneg (Nat.cast_nonneg m) (two_pow_pos e).le) hone
  exact (div_le hx hy h (hle.trans hwider)).1.isFinite

theorem isFinite_div_infinity {s : Sign} (hx : x.isFinite)
    (hy : y.toModel.unpack = .infinity s) : ∃ s, (x / y).toModel.unpack = .zero s := by
  have hdouble := IsDouble.of_unpack hx
  rw [unpack_div, hy]
  generalize x.toModel.unpack = u at hdouble
  cases hdouble with
  | zero s₁ => exact ⟨_, (IsDouble.zero _).unpack_pack⟩
  | finite s₁ h₁ => exact ⟨_, (IsDouble.zero _).unpack_pack⟩

end BenchTables.Binary64
