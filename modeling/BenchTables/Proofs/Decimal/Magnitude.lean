import BenchTables.Proofs.Binary64.Order
import BenchTables.Proofs.Decimal.Denotation

/-!
# The sign and the magnitude of a double

A finite double is a sign, which its first bit tells, and a magnitude of which the decimal texts and
the counts are made (`exists_magnitude`).  It counts as a natural number exactly when it is one
(`toNat?_eq_some_iff`).
-/

open Float.Model Float.Model.UnpackedFloat

namespace BenchTables.Decimal

open Binary64

/-- Whether the first bit of a double is set. -/
def hasSignBit (x : Float) : Bool :=
  2 ^ 63 ≤ x.toBits.toNat

variable {x : Float} {k m : ℕ} {e : ℤ}

theorem isMinus_eq_hasSignBit {u : UnpackedFloat} {s : Sign} (hu : x.toModel.unpack = u)
    (hs : signOf? u = some s) : BinaryValue.isMinus s = hasSignBit x := by
  have hbits : hasSignBit x = decide (2 ^ 63 ≤ x.toModel.toBits.toNat) := rfl
  rcases signOf?_unpack x.toModel with hnone | hsome
  · rw [hu, hs] at hnone
    cases hnone
  · rw [hu, hs] at hsome
    cases hsome
    rw [hbits]
    split
    next hlow => exact (decide_eq_false (Nat.not_le.mpr hlow)).symm
    next hhigh => exact (decide_eq_true (Nat.not_lt.mp hhigh)).symm

/-- A finite double is its sign and a magnitude. -/
theorem exists_magnitude (hx : x.isFinite) :
    ∃ m e, BinaryValue.ofFloat x = .finite (hasSignBit x) m e ∧
      numberOf x = signed (hasSignBit x) (m * 2 ^ e) := by
  have hdouble := IsDouble.of_unpack hx
  unfold BinaryValue.ofFloat numberOf
  generalize hu : x.toModel.unpack = u at hdouble
  cases hdouble with
  | zero s =>
    refine ⟨0, 0, ?_, ?_⟩
    · rw [← isMinus_eq_hasSignBit hu rfl]
    · rw [signed, Nat.cast_zero, zero_mul, neg_zero, ite_self]
      rfl
  | @finite s m e h =>
    rw [← isMinus_eq_hasSignBit hu rfl]
    refine ⟨m, e, rfl, ?_⟩
    cases s with
    | positive => rfl
    | negative => rfl

/-- A quotient is a natural number if nothing is left of it. -/
theorem natCast_div_eq_iff {num den : ℕ} (hden : 0 < den) :
    (num : ℚ) / den = k ↔ num % den = 0 ∧ num / den = k := by
  have hpos : (0 : ℚ) < den := by exact_mod_cast hden
  rw [div_eq_iff hpos.ne']
  constructor
  · intro h
    obtain rfl : num = k * den := by exact_mod_cast h
    exact ⟨Nat.mul_mod_left k den, Nat.mul_div_cancel k hden⟩
  · rintro ⟨hrest, rfl⟩
    exact_mod_cast (Nat.div_mul_cancel (Nat.dvd_of_mod_eq_zero hrest)).symm

/-- What is not finite counts as no number. -/
theorem toNat?_eq_none (hx : ¬x.isFinite) : (BinaryValue.ofFloat x).toNat? = none := by
  rw [isFinite_iff] at hx
  unfold BinaryValue.ofFloat
  cases hu : x.toModel.unpack with
  | notANumber => rfl
  | infinity s => rfl
  | zero s =>
    rw [hu] at hx
    exact absurd rfl hx
  | finite s m e hm =>
    rw [hu] at hx
    exact absurd rfl hx

/-- A finite double counts as the natural number that it is. -/
theorem toNat?_eq_some_iff :
    (BinaryValue.ofFloat x).toNat? = some k ↔ x.isFinite ∧ numberOf x = k := by
  by_cases hx : x.isFinite
  swap
  · rw [toNat?_eq_none hx]
    exact ⟨nofun, fun h => absurd h.1 hx⟩
  rw [and_iff_right hx]
  obtain ⟨m, e, hvalue, hnumber⟩ := exists_magnitude hx
  have hden := BinaryValue.fraction_den_pos m e
  rw [hvalue, hnumber, ← fraction_value]
  unfold BinaryValue.toNat? signed
  dsimp only
  generalize (BinaryValue.fraction m e).1 = num
  generalize (BinaryValue.fraction m e).2 = den at hden
  rw [Option.ite_none_right_eq_some, Option.some.injEq]
  cases hasSignBit x with
  | false => simp [natCast_div_eq_iff hden]
  | true =>
    -- Below zero no double counts, but a zero does.
    have hquotient : (0 : ℚ) ≤ (num : ℚ) / den := by positivity
    rw [if_pos rfl]
    constructor
    · rintro ⟨⟨-, hsign⟩, rfl⟩
      obtain rfl : num = 0 := hsign.resolve_left nofun
      simp
    · intro h
      have hnonneg : (0 : ℚ) ≤ k := Nat.cast_nonneg k
      have hk : (k : ℚ) = 0 := by linarith
      have hnum : (num : ℚ) / den = (0 : ℕ) := by
        rw [Nat.cast_zero]
        linarith
      obtain ⟨hrest, hwhole⟩ := (natCast_div_eq_iff hden).mp hnum
      have hzero : num = 0 := by
        have hparts := Nat.div_add_mod num den
        rw [hrest, hwhole] at hparts
        omega
      exact ⟨⟨hrest, Or.inr hzero⟩, hwhole.trans (by exact_mod_cast hk.symm)⟩

end BenchTables.Decimal
