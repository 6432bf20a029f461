import BenchTables.Proofs.Binary64.Nearest
import BenchTables.Proofs.Binary64.Positive

/-!
# Whole numbers of units

Numbers of up to `2 ^ 53` units, where a unit is a power of two, are doubles, so that they are added
without rounding as long as their sum is in range (`HasUnits.add`), and a power of two divides them
into smaller units (`HasUnits.div_kibibyte`).  Dividing them by a count rounds once
(`HasUnits.isNearest_div`).
-/

open Float.Model Float.Model.UnpackedFloat

namespace BenchTables.Binary64

/-- A double is a number of units of `2 ^ j`; none are a zero of either sign. -/
inductive HasUnits (j : ℤ) (x : Float) : ℕ → Prop
  | zero {s : Sign} (h : x.toModel.unpack = .zero s) : HasUnits j x 0
  | positive {k : ℕ} (h : HasValue x (k * 2 ^ j)) : HasUnits j x k

variable {x y : Float} {a b k n : ℕ} {j : ℤ} {q : ℚ} {u : UnpackedFloat} {s : Sign}

/-! ## Values -/

theorem HasValue.unpack_eq (hx : HasValue x q) (hy : HasValue y q) :
    x.toModel.unpack = y.toModel.unpack := by
  obtain ⟨m, e, h, hx, rfl⟩ := hx
  obtain ⟨m', e', h', hy, hvalue⟩ := hy
  have hrounds : RoundsTo (m * 2 ^ e) .positive (.finite .positive m' e' h'.pos) :=
    ⟨m', e', hvalue ▸ h'.unitExponent,
      by rw [← hvalue, mul_div_cancel_right₀ _ (two_pow_pos e').ne']
         exact Decimal.nearestEven_natCast m',
      (ofRounded_of_lt h').symm⟩
  rw [hx, hy, hrounds.eq_of_value h]

theorem HasValue.signOf? (hx : HasValue x q) : signOf? x.toModel.unpack = some .positive := by
  obtain ⟨m, e, h, hx, -⟩ := hx
  rw [hx]
  rfl

theorem HasValue.units_pos (hx : HasValue x (k * 2 ^ j)) : 0 < k := by
  have hunits := pos_of_mul_pos_left hx.pos (two_pow_pos j).le
  exact_mod_cast hunits

theorem HasValue.numberOf_eq (hx : HasValue x q) : numberOf x = q := by
  obtain ⟨m, e, h, hx, rfl⟩ := hx
  rw [Binary64.numberOf, hx]
  rfl

namespace HasUnits

theorem isFinite (h : HasUnits j x k) : x.isFinite := by
  cases h with
  | zero h =>
    rw [isFinite_iff, h]
    rfl
  | positive h => exact h.isFinite

theorem numberOf_eq (h : HasUnits j x k) : numberOf x = k * 2 ^ j := by
  cases h with
  | zero h =>
    rw [Binary64.numberOf, h, Nat.cast_zero, zero_mul]
    rfl
  | positive h => exact h.numberOf_eq

theorem hasValue (h : HasUnits j x k) (hk : k ≠ 0) : HasValue x (k * 2 ^ j) := by
  cases h with
  | zero => exact absurd rfl hk
  | positive h => exact h

/-- Units are told by the value of a double. -/
theorem of_value (hx : x.isFinite) (h : Binary64.numberOf x = k * 2 ^ j) : HasUnits j x k := by
  have hdouble := IsDouble.of_unpack hx
  rw [Binary64.numberOf] at h
  generalize hunpack : x.toModel.unpack = u at *
  have hpos := two_pow_pos j
  cases hdouble with
  | zero s =>
    have hk : (k : ℚ) = 0 := (mul_eq_zero.mp h.symm).resolve_right hpos.ne'
    rw [Nat.cast_eq_zero.mp hk]
    exact .zero hunpack
  | @finite s m e hm =>
    have hvalue : (0 : ℚ) < m * 2 ^ e := mul_pos (by exact_mod_cast hm.pos) (two_pow_pos e)
    cases s with
    | positive => exact .positive ⟨m, e, hm, hunpack, h⟩
    | negative =>
      -- A number of units is not negative.
      have hnonneg : (0 : ℚ) ≤ k * 2 ^ j := mul_nonneg (Nat.cast_nonneg k) hpos.le
      have hneg : -((m : ℚ) * 2 ^ e) = k * 2 ^ j := h
      linarith

/-- Without a sign, a double is told by its units. -/
theorem unpack_eq (hx : HasUnits j x k) (hy : HasUnits j y k)
    (hxsign : signOf? x.toModel.unpack = some .positive)
    (hysign : signOf? y.toModel.unpack = some .positive) :
    x.toModel.unpack = y.toModel.unpack := by
  cases hx with
  | zero hx =>
    cases hy with
    | zero hy =>
      rw [hx] at hxsign ⊢
      rw [hy] at hysign ⊢
      cases hxsign
      cases hysign
      rfl
    | positive hy => exact absurd hy.units_pos (Nat.lt_irrefl 0)
  | positive hx =>
    cases hy with
    | zero hy => exact absurd hx.units_pos (Nat.lt_irrefl 0)
    | positive hy => exact hx.unpack_eq hy

end HasUnits

/-! ## Exact numbers -/

/-- A number of units in range is a double. -/
theorem exists_canonical_units (hpos : 0 < k) (hle : k ≤ 2 ^ 53) (hmin : -1022 ≤ j)
    (hmax : j ≤ 900) : ∃ m e, Canonical m e ∧ (m : ℚ) * 2 ^ e = k * 2 ^ j := by
  rcases hle.lt_or_eq with hlt | rfl
  · obtain ⟨m, e, h, -, hvalue⟩ := ofNat_value k hpos hlt
    have hone : (1 : ℚ) ≤ m * 2 ^ e := by
      rw [hvalue]
      exact_mod_cast hpos
    obtain ⟨hfull, hlow⟩ := full_of_one_le h hone
    have hhigh : e ≤ 0 := by
      have hbelow : (m : ℚ) * 2 ^ e < 2 ^ (0 + 53 : ℤ) := by
        rw [hvalue]
        exact_mod_cast hlt
      exact h.unitExponent.le_of_lt (by decide) hbelow
    refine ⟨m, e + j, ⟨h.pos, h.lt, by omega, by omega, Or.inr hfull⟩, ?_⟩
    rw [zpow_add₀ two_ne_zero_rat, ← mul_assoc, hvalue]
  · refine ⟨2 ^ 52, j + 1, canonical_two_pow (by omega) (by omega), ?_⟩
    rw [zpow_add₀ two_ne_zero_rat, zpow_one]
    push_cast
    ring

/-- What is rounded to a double is that double already. -/
theorem hasValue_of_exact (hx : x.toModel = Float.Model.pack u)
    (hu : RoundsTo (k * 2 ^ j) .positive u) (hpos : 0 < k) (hle : k ≤ 2 ^ 53) (hmin : -1022 ≤ j)
    (hmax : j ≤ 900) : HasValue x (k * 2 ^ j) := by
  obtain ⟨m, e, h, hvalue⟩ := exists_canonical_units hpos hle hmin hmax
  rw [← hvalue] at hu ⊢
  refine ⟨m, e, h, ?_, rfl⟩
  rw [hx, hu.eq_of_value h]
  exact unpack_pack_finite .positive h

theorem hasValue_ofNat (hpos : 0 < n) (hle : n ≤ 2 ^ 53) : HasValue (Float.ofNat n) n := by
  obtain ⟨u, hu, hmodel⟩ := float_ofNat_roundsTo hpos
  have hunits : (n : ℚ) = n * 2 ^ (0 : ℤ) := by rw [zpow_zero, mul_one]
  rw [hunits] at hu ⊢
  exact hasValue_of_exact hmodel hu hpos hle (by decide) (by decide)

theorem hasValue_toFloat {w : UInt64} (hw : w ≠ 0) (hle : w.toNat ≤ 2 ^ 53) :
    HasValue w.toFloat w.toNat := by
  have hunits : (w.toNat : ℚ) = w.toNat * 2 ^ (0 : ℤ) := by rw [zpow_zero, mul_one]
  have hu := ofNat_roundsTo (toNat_pos hw)
  rw [hunits] at hu ⊢
  exact hasValue_of_exact rfl hu (toNat_pos hw) hle (by decide) (by decide)

theorem hasUnits_toFloat {w : UInt64} (hle : w.toNat ≤ 2 ^ 53) : HasUnits 0 w.toFloat w.toNat := by
  by_cases hw : w = 0
  · subst hw
    exact .zero (s := .positive) rfl
  · apply HasUnits.positive
    rw [zpow_zero, mul_one]
    exact hasValue_toFloat hw hle

/-- The word nearest to the double of a word is that word. -/
theorem nearestUInt64_toFloat {w : UInt64} (hle : w.toNat ≤ 2 ^ 53) :
    Decimal.nearestUInt64 w.toFloat = w := by
  by_cases hw : w = 0
  · subst hw
    decide +kernel
  · have hvalue := hasValue_toFloat hw hle
    have hmagnitude : magnitude w.toFloat.toModel.unpack = w.toNat := by
      rw [← valueOf_of_positive hvalue.signOf?]
      exact hvalue.numberOf_eq
    have hfloor : ⌊(w.toNat : ℚ) + 1 / 2⌋₊ = w.toNat := by
      rw [Nat.floor_eq_iff (by positivity)]
      constructor <;> linarith
    rw [← UInt64.toNat_inj, toNat_nearestUInt64 hvalue.isFinite hvalue.signOf?, hmagnitude, hfloor]
    omega

/-! ## Sums -/

theorem unpack_zero_add (hx : x.toModel.unpack = .zero s) (hy : HasValue y q) :
    (x + y).toModel.unpack = y.toModel.unpack := by
  obtain ⟨m, e, h, hy, rfl⟩ := hy
  rw [unpack_add, hx, hy]
  exact unpack_pack_finite .positive h

theorem unpack_add_zero (hx : HasValue x q) (hy : y.toModel.unpack = .zero s) :
    (x + y).toModel.unpack = x.toModel.unpack := by
  obtain ⟨m, e, h, hx, rfl⟩ := hx
  rw [unpack_add, hx, hy]
  exact unpack_pack_finite .positive h

/-- A sum of two zeros is a zero, and a positive one if the first of them is. -/
theorem unpack_zeros_add {s' : Sign} (hx : x.toModel.unpack = .zero s)
    (hy : y.toModel.unpack = .zero s') :
    ∃ s'', (x + y).toModel.unpack = .zero s'' ∧ (s = .positive → s'' = .positive) := by
  rw [unpack_add, hx, hy]
  cases s with
  | positive =>
    cases s' with
    | positive => exact ⟨.positive, rfl, fun _ => rfl⟩
    | negative => exact ⟨.positive, rfl, fun _ => rfl⟩
  | negative =>
    cases s' with
    | positive => exact ⟨.positive, rfl, fun _ => rfl⟩
    | negative => exact ⟨.negative, rfl, nofun⟩

theorem HasValue.of_unpack_eq (hy : HasValue y q) (h : x.toModel.unpack = y.toModel.unpack) :
    HasValue x q := by
  obtain ⟨m, e, hm, hy, hvalue⟩ := hy
  exact ⟨m, e, hm, h.trans hy, hvalue⟩

/-- Units are added without rounding, and no sign comes up in their sum. -/
theorem HasUnits.add (hx : HasUnits j x a) (hy : HasUnits j y b) (hle : a + b ≤ 2 ^ 53)
    (hmin : -1022 ≤ j) (hmax : j ≤ 900) :
    HasUnits j (x + y) (a + b) ∧ (signOf? x.toModel.unpack = some .positive →
      signOf? (x + y).toModel.unpack = some .positive) := by
  cases hx with
  | @zero s hx =>
    cases hy with
    | zero hy =>
      obtain ⟨s'', hsum, hsign⟩ := unpack_zeros_add hx hy
      refine ⟨.zero hsum, fun hpositive => ?_⟩
      rw [hx] at hpositive
      rw [hsum, hsign (Option.some.inj hpositive)]
      rfl
    | positive hy =>
      have hsum := hy.of_unpack_eq (unpack_zero_add hx hy)
      rw [Nat.zero_add]
      exact ⟨.positive hsum, fun _ => hsum.signOf?⟩
  | positive hx =>
    cases hy with
    | zero hy =>
      have hsum := hx.of_unpack_eq (unpack_add_zero hx hy)
      exact ⟨.positive hsum, fun _ => hsum.signOf?⟩
    | positive hy =>
      have hu := hx.add hy
      rw [← add_mul, ← Nat.cast_add] at hu
      have hsum := hasValue_of_exact (x := x + y) rfl hu (Nat.add_pos_left hx.units_pos b) hle
        hmin hmax
      exact ⟨.positive hsum, fun _ => hsum.signOf?⟩

/-! ## Quotients -/

theorem unpack_zero_div (hx : x.toModel.unpack = .zero .positive) (hn : 0 < n) :
    (x / Float.ofNat n).toModel.unpack = .zero .positive := by
  have hquotient : UnpackedFloat.div .binary64 (.zero .positive) (Float.ofNat n).toModel.unpack =
      .zero .positive := by
    rcases ofNat_cases hn with hinfinity | ⟨q, ⟨m, e, h, hcount, -⟩, -⟩
    · rw [hinfinity]
      rfl
    · rw [hcount]
      rfl
  rw [unpack_div, hx, hquotient]
  exact (IsDouble.zero _).unpack_pack

theorem HasUnits.div_kibibyte (hx : HasUnits j x k) (hle : k ≤ 2 ^ 53) (hmin : -1012 ≤ j)
    (hmax : j ≤ 900) : HasUnits (j - 10) (x / 1024.0) k := by
  have hdivisor : HasValue 1024.0 1024 :=
    ⟨2 ^ 52, -42, canonical_two_pow (by decide) (by decide), rfl, by norm_num⟩
  cases hx with
  | @zero s hx =>
    have hquotient : (x / 1024.0).toModel.unpack = .zero (s / .positive) := by
      obtain ⟨m, e, h, hdivisor, -⟩ := hdivisor
      rw [unpack_div, hx, hdivisor]
      exact (IsDouble.zero _).unpack_pack
    exact .zero hquotient
  | positive hx =>
    have hu := hx.div hdivisor
    have hvalue : (k : ℚ) * 2 ^ j / 1024 = k * 2 ^ (j - 10) := by
      rw [zpow_sub₀ two_ne_zero_rat, mul_div_assoc]
      norm_num
    rw [hvalue] at hu
    exact .positive (hasValue_of_exact rfl hu hx.units_pos hle (by omega) (by omega))

/-- The mean of units is rounded once, where there are few enough of them to be counted. -/
theorem HasUnits.isNearest_div (hx : HasUnits j x k)
    (hsign : signOf? x.toModel.unpack = some .positive) (hn : 0 < n)
    (hcount : k ≠ 0 → n ≤ 2 ^ 53) : IsNearest (k * 2 ^ j / n) (x / Float.ofNat n) := by
  cases hx with
  | @zero s hx =>
    rw [hx] at hsign
    obtain rfl : s = .positive := Option.some.inj hsign
    have hu : RoundsTo 0 .positive (.zero .positive) := by
      refine ⟨0, -1074, ⟨le_rfl, two_pow_pos _, Or.inl rfl⟩, ?_, rfl⟩
      rw [zero_div]
      exact_mod_cast Decimal.nearestEven_natCast 0
    rw [Nat.cast_zero, zero_mul, zero_div]
    exact isNearest_of_roundsTo hu (.zero _) (unpack_zero_div hx hn)
  | positive hx =>
    have hu := hx.div (hasValue_ofNat hn (hcount hx.units_pos.ne'))
    obtain ⟨m, e, h, -, hvalue⟩ := id hx
    have hone : (1 : ℚ) ≤ n := by exact_mod_cast hn
    have hbelow : (k : ℚ) * 2 ^ j / n ≤ m * 2 ^ e := by
      rw [hvalue]
      exact div_le_self hx.pos.le hone
    have hdouble := (hu.le h hbelow).1
    exact isNearest_of_roundsTo hu hdouble hdouble.unpack_pack

/-! ## Whole numbers -/

theorem numberOf_ofNat (hle : n ≤ 2 ^ 53) :
    (Float.ofNat n).isFinite ∧ numberOf (Float.ofNat n) = n := by
  rcases Nat.eq_zero_or_pos n with rfl | hpos
  · decide +kernel
  · have hvalue := hasValue_ofNat hpos hle
    exact ⟨hvalue.isFinite, hvalue.numberOf_eq⟩

/-- A double that reaches `2 ^ 53` is a whole number. -/
theorem exists_natCast_of_le (hx : x.isFinite) (hle : 2 ^ 53 ≤ numberOf x) :
    ∃ k : ℕ, numberOf x = k := by
  have hdouble := IsDouble.of_unpack hx
  unfold numberOf at hle ⊢
  generalize x.toModel.unpack = u at hle hdouble
  cases hdouble with
  | zero s => exact ⟨0, Nat.cast_zero.symm⟩
  | @finite s m e h =>
    have hpos : (0 : ℚ) ≤ m * 2 ^ e := mul_nonneg (Nat.cast_nonneg m) (two_pow_pos e).le
    cases s with
    | negative =>
      change (2 : ℚ) ^ 53 ≤ -(m * 2 ^ e) at hle
      norm_num at hle
      linarith
    | positive =>
      change (2 : ℚ) ^ 53 ≤ m * 2 ^ e at hle
      have he : 0 ≤ e := by
        by_contra hneg
        have hm : (m : ℚ) < 2 ^ 53 := by exact_mod_cast h.lt
        have hunit : (2 : ℚ) ^ e ≤ 1 := by
          rw [← zpow_zero 2]
          exact zpow_le_zpow_right₀ (by norm_num) (by omega)
        have hbelow : (m : ℚ) * 2 ^ e ≤ m := mul_le_of_le_one_right (Nat.cast_nonneg m) hunit
        linarith
      obtain ⟨k, rfl⟩ := Int.eq_ofNat_of_zero_le he
      refine ⟨m * 2 ^ k, ?_⟩
      change (m : ℚ) * 2 ^ (k : ℤ) = _
      push_cast
      rw [zpow_natCast]

/-- The double nearest to a whole number of 64 bits is a whole number that is not above `2 ^ 64`. -/
theorem IsNearest.exists_natCast (h : IsNearest n x) (hn : n ≤ 2 ^ 64) :
    ∃ k : ℕ, numberOf x = k ∧ k ≤ 2 ^ 64 := by
  by_cases hsmall : n ≤ 2 ^ 53
  · obtain ⟨hfinite, hvalue⟩ := numberOf_ofNat hsmall
    have hle := h.nearest _ hfinite
    rw [hvalue, sub_self, abs_zero] at hle
    exact ⟨n, (sub_eq_zero.mp (abs_eq_zero.mp (le_antisymm hle (abs_nonneg _)))).symm, hn⟩
  -- Between two doubles that are powers of two no double outside is nearer.
  have hlow := h.nearest (Float.ofNat (2 ^ 53)) (by decide +kernel)
  have hhigh := h.nearest (Float.ofNat (2 ^ 64)) (by decide +kernel)
  have hfirst : numberOf (Float.ofNat (2 ^ 53)) = 2 ^ 53 := by decide +kernel
  have hlast : numberOf (Float.ofNat (2 ^ 64)) = 2 ^ 64 := by decide +kernel
  have hn53 : (2 : ℚ) ^ 53 ≤ n := by exact_mod_cast (not_le.mp hsmall).le
  have hn64 : (n : ℚ) ≤ 2 ^ 64 := by exact_mod_cast hn
  rw [hfirst, abs_of_nonneg (sub_nonneg.mpr hn53)] at hlow
  rw [hlast, abs_of_nonpos (sub_nonpos.mpr hn64)] at hhigh
  have habove := (abs_le.mp hlow).2
  have hbelow := (abs_le.mp hhigh).1
  obtain ⟨k, hk⟩ := exists_natCast_of_le h.isFinite (by linarith)
  rw [hk] at hbelow
  have hle : (k : ℚ) ≤ (2 ^ 64 : ℕ) := by
    push_cast
    linarith
  exact ⟨k, hk, by exact_mod_cast hle⟩

end BenchTables.Binary64
