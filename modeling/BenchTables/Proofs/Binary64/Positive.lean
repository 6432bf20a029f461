import BenchTables.Proofs.Binary64.Finite

/-!
# Positive doubles

What positive doubles that are numbers come to when they are added and divided (`HasValue.add`,
`HasValue.div`), and the doubles of natural numbers (`ofNat_cases`).
-/

open Float.Model Float.Model.UnpackedFloat

namespace BenchTables.Binary64

variable {x y : Float} {a b q : ℚ} {u : UnpackedFloat} {m n : ℕ} {e : ℤ}

/-- A double is a positive number. -/
def HasValue (x : Float) (q : ℚ) : Prop :=
  ∃ m e, ∃ h : Canonical m e, x.toModel.unpack = .finite .positive m e h.pos ∧ (m : ℚ) * 2 ^ e = q

theorem HasValue.isFinite (h : HasValue x q) : x.isFinite := by
  obtain ⟨m, e, hcanonical, hunpack, -⟩ := h
  rw [isFinite_iff, hunpack]
  rfl

theorem HasValue.pos (h : HasValue x q) : 0 < q := by
  obtain ⟨m, e, hcanonical, -, rfl⟩ := h
  exact mul_pos (by exact_mod_cast hcanonical.pos) (two_pow_pos e)

theorem HasValue.unique (ha : HasValue x a) (hb : HasValue x b) : a = b := by
  obtain ⟨m, e, h, hunpack, rfl⟩ := ha
  obtain ⟨m', e', h', hunpack', rfl⟩ := hb
  cases hunpack.symm.trans hunpack'
  rfl

theorem HasValue.ne_zero (h : HasValue x q) : (x == 0.0) = false := by
  obtain ⟨m, e, hcanonical, hunpack, -⟩ := h
  show UnpackedFloat.beq x.toModel.unpack (0.0 : Float).toModel.unpack = false
  rw [hunpack, unpack_zero]
  rfl

/-- A positive number that is rounded to a double other than zero is that double. -/
theorem hasValue_of_roundsTo (hx : x.toModel = Float.Model.pack u) (hu : RoundsTo q .positive u)
    (hdouble : IsDouble u) (hpos : 0 < magnitude u) : HasValue x (magnitude u) := by
  obtain ⟨r, t, -, -, rfl⟩ := hu
  generalize hrounded : ofRounded .positive r t = v at *
  cases hdouble with
  | zero s => exact absurd hpos (lt_irrefl 0)
  | @finite s m e h =>
    have hsign : s = .positive := sign_ofRounded hrounded
    subst hsign
    refine ⟨m, e, h, ?_, rfl⟩
    rw [hx]
    exact unpack_pack_finite .positive h

/-! ## Sums -/

/-- The sum of two positive numbers is rounded to the nearest double. -/
theorem add_roundsTo {m₁ m₂ : ℕ} {e₁ e₂ : ℤ} (h₁ : 0 < m₁) (h₂ : 0 < m₂) :
    RoundsTo (m₁ * 2 ^ e₁ + m₂ * 2 ^ e₂) .positive
      (UnpackedFloat.add .binary64 (.finite .positive m₁ e₁ h₁) (.finite .positive m₂ e₂ h₂)) := by
  obtain ⟨k₁, hk₁⟩ := Int.eq_ofNat_of_zero_le (show 0 ≤ e₁ - min e₁ e₂ by omega)
  obtain ⟨k₂, hk₂⟩ := Int.eq_ofNat_of_zero_le (show 0 ≤ e₂ - min e₁ e₂ by omega)
  have hsum : 0 < m₁ <<< k₁ + m₂ <<< k₂ :=
    Nat.add_pos_left (Nat.shiftLeft_pos_iff.mpr h₁) _
  -- Both significands are brought to the smaller exponent.
  have hvalue : (m₁ : ℚ) * 2 ^ e₁ + m₂ * 2 ^ e₂ =
      ((m₁ <<< k₁ + m₂ <<< k₂ : ℕ) : ℚ) * 2 ^ min e₁ e₂ := by
    have hfirst : (2 : ℚ) ^ e₁ = 2 ^ k₁ * 2 ^ min e₁ e₂ := by
      rw [← zpow_natCast, ← zpow_add₀ two_ne_zero_rat]
      congr 1
      omega
    have hsecond : (2 : ℚ) ^ e₂ = 2 ^ k₂ * 2 ^ min e₁ e₂ := by
      rw [← zpow_natCast, ← zpow_add₀ two_ne_zero_rat]
      congr 1
      omega
    rw [hfirst, hsecond, Nat.shiftLeft_eq, Nat.shiftLeft_eq]
    push_cast
    ring
  have hadd : UnpackedFloat.add .binary64 (.finite .positive m₁ e₁ h₁)
      (.finite .positive m₂ e₂ h₂) =
        round .binary64 .positive (m₁ <<< k₁ + m₂ <<< k₂) (min e₁ e₂) := by
    change UnpackedFloat.normalize .binary64 (((m₁ <<< (e₁ - min e₁ e₂).toNat : ℕ) : ℤ) +
      ((m₂ <<< (e₂ - min e₁ e₂).toNat : ℕ) : ℤ)) (min e₁ e₂) .positive = _
    rw [hk₁, hk₂, Int.toNat_natCast, Int.toNat_natCast, ← Nat.cast_add, UnpackedFloat.normalize,
      Int.compare_eq_gt.mpr (by omega)]
    rfl
  rw [hvalue, hadd]
  exact round_roundsTo .positive hsum (min e₁ e₂)

theorem HasValue.add (hx : HasValue x a) (hy : HasValue y b) :
    RoundsTo (a + b) .positive
      (UnpackedFloat.add .binary64 x.toModel.unpack y.toModel.unpack) := by
  obtain ⟨m₁, e₁, h₁, hx, rfl⟩ := hx
  obtain ⟨m₂, e₂, h₂, hy, rfl⟩ := hy
  rw [hx, hy]
  exact add_roundsTo h₁.pos h₂.pos

/-- A positive zero adds nothing. -/
theorem HasValue.zero_add (hx : HasValue x a) : HasValue (0.0 + x) a := by
  obtain ⟨m, e, h, hx, rfl⟩ := hx
  refine ⟨m, e, h, ?_, rfl⟩
  rw [unpack_add, unpack_zero, hx]
  exact unpack_pack_finite .positive h

/-! ## Quotients -/

theorem HasValue.div (hx : HasValue x a) (hy : HasValue y b) :
    RoundsTo (a / b) .positive
      (UnpackedFloat.div .binary64 x.toModel.unpack y.toModel.unpack) := by
  obtain ⟨m₁, e₁, h₁, hx, rfl⟩ := hx
  obtain ⟨m₂, e₂, h₂, hy, rfl⟩ := hy
  rw [hx, hy]
  exact div_roundsTo .positive .positive e₁ e₂ h₁.pos h₂.pos

/-! ## Natural numbers -/

/-- The product of two finite doubles with enough bits is rounded to the nearest double. -/
theorem mul_roundsTo {m₁ m₂ : ℕ} (e₁ e₂ : ℤ) (h₁ : 0 < m₁) (h₂ : 0 < m₂)
    (hbits : 2 ^ 52 ≤ m₁ * m₂) :
    RoundsTo (m₁ * 2 ^ e₁ * (m₂ * 2 ^ e₂)) .positive
      (UnpackedFloat.mul .binary64 (.finite .positive m₁ e₁ h₁) (.finite .positive m₂ e₂ h₂)) := by
  have hvalue : (m₁ : ℚ) * 2 ^ e₁ * (m₂ * 2 ^ e₂) = ((m₁ * m₂ : ℕ) : ℚ) * 2 ^ (e₁ + e₂) := by
    rw [zpow_add₀ two_ne_zero_rat]
    push_cast
    ring
  rw [hvalue]
  apply roundWithAccuracy_roundsTo .positive (e₁ + e₂) (show Places (m₁ * m₂) _ .exact from rfl)
  rw [targetExponent_eq, totalExponent]
  have hlog := (Nat.le_log2 (Nat.mul_pos h₁ h₂).ne').mpr hbits
  omega

/-- The double of a natural number is the nearest one, in either way of computing it. -/
theorem float_ofNat_roundsTo (hpos : 0 < n) :
    ∃ u, RoundsTo n .positive u ∧ (Float.ofNat n).toModel = Float.Model.pack u := by
  change ∃ u, RoundsTo n .positive u ∧ (Float.ofScientific n false 0).toModel = _
  by_cases hsmall : n < 2 ^ 53
  · obtain ⟨m, e, h, hu, hvalue⟩ := ofNat_value n hpos hsmall
    have hn : n.toUInt64.toNat = n := by
      rw [UInt64.toNat_ofNat']
      exact Nat.mod_eq_of_lt (hsmall.trans (by decide))
    have hfactor : n.toUInt64.toFloat.toModel.unpack = .finite .positive m e h.pos := by
      change (Float.Model.pack (UnpackedFloat.ofNat .binary64 n.toUInt64.toNat)).unpack = _
      rw [hn, hu]
      exact unpack_pack_finite .positive h
    have hone : (Float.ofBits 0x3FF0000000000000).toModel.unpack =
        .finite .positive (2 ^ 52) (-52) (by decide) := rfl
    have hproduct : (n : ℚ) = m * 2 ^ e * ((2 ^ 52 : ℕ) * 2 ^ (-52 : ℤ)) := by
      rw [hvalue]
      norm_num
    have hrounds := mul_roundsTo e (-52) h.pos (show 0 < 2 ^ 52 by decide)
      (Nat.le_mul_of_pos_left _ h.pos)
    rw [← hproduct] at hrounds
    refine ⟨_, hrounds, ?_⟩
    rw [Float.ofScientific, dif_pos ⟨hsmall, by decide⟩, if_neg Bool.false_ne_true, ← hfactor,
      ← hone]
    rfl
  · have hproduct : (n : ℚ) = (n <<< 53 : ℕ) * 2 ^ (-53 : ℤ) * ((10 ^ 0 : ℕ) * 2 ^ (0 : ℤ)) := by
      rw [Nat.shiftLeft_eq]
      push_cast
      rw [mul_assoc (n : ℚ)]
      norm_num
    have hbits : 2 ^ 52 ≤ n <<< 53 * 10 ^ 0 := by
      rw [Nat.shiftLeft_eq]
      omega
    have hrounds := mul_roundsTo (-53) 0 (Nat.shiftLeft_pos_iff.mpr hpos)
      (show 0 < 10 ^ 0 by decide) hbits
    rw [← hproduct] at hrounds
    refine ⟨_, hrounds, ?_⟩
    rw [Float.ofScientific, dif_neg (fun h => hsmall h.1), if_neg Bool.false_ne_true]
    change Float.Model.pack (UnpackedFloat.ofScientific .binary64 n 0) = _
    rw [UnpackedFloat.ofScientific, dif_neg hpos.ne', if_neg (by decide), if_neg, if_pos le_rfl]
    · rfl
    · have : (2 : ℤ) ^ Format.binary64.exponentBits = 2048 := rfl
      omega

theorem RoundsTo.one_le {s : Sign} (hu : RoundsTo q s u) (hq : 1 ≤ q) : 1 ≤ magnitude u := by
  have hpower : (2 : ℚ) ^ (0 : ℤ) = 1 := zpow_zero 2
  rw [← hpower] at hq ⊢
  exact hu.two_pow_le (by decide) hq

/-- The double of a natural number is not below one, or the number is beyond all doubles. -/
theorem ofNat_cases (hpos : 0 < n) :
    (Float.ofNat n).toModel.unpack = .infinity .positive ∨
      ∃ q, HasValue (Float.ofNat n) q ∧ 1 ≤ q := by
  obtain ⟨u, hu, hmodel⟩ := float_ofNat_roundsTo hpos
  rcases hu.isDouble_or_infinity with hdouble | hinfinity
  · right
    have hone : 1 ≤ magnitude u := hu.one_le (by exact_mod_cast hpos)
    exact ⟨_, hasValue_of_roundsTo hmodel hu hdouble (by linarith), hone⟩
  · left
    rw [hmodel, hinfinity]

/-- The double to which a number in the range of words is rounded. -/
theorem RoundsTo.exists_hasValue_of_word (hu : RoundsTo n .positive u)
    (hx : x.toModel = Float.Model.pack u) (hpos : 0 < n) (hlt : n < 2 ^ 64) :
    ∃ q, HasValue x q ∧ 1 ≤ q ∧ q ≤ 2 ^ 64 := by
  have htop : Canonical (2 ^ 52) 12 := canonical_two_pow (by decide) (by decide)
  have hsize : ((2 ^ 52 : ℕ) : ℚ) * 2 ^ (12 : ℤ) = 2 ^ 64 := by norm_num
  have hbelow : (n : ℚ) ≤ (2 ^ 52 : ℕ) * 2 ^ (12 : ℤ) := by
    rw [hsize]
    exact_mod_cast hlt.le
  obtain ⟨hdouble, hle⟩ := hu.le htop hbelow
  have hone : 1 ≤ magnitude u := hu.one_le (by exact_mod_cast hpos)
  exact ⟨_, hasValue_of_roundsTo hx hu hdouble (by linarith), hone, hsize ▸ hle⟩

/-- The double of a number that a word can count. -/
theorem exists_hasValue_ofNat (hpos : 0 < n) (hlt : n < 2 ^ 64) :
    ∃ q, HasValue (Float.ofNat n) q ∧ 1 ≤ q := by
  obtain ⟨u, hu, hmodel⟩ := float_ofNat_roundsTo hpos
  obtain ⟨q, hq, hone, -⟩ := hu.exists_hasValue_of_word hmodel hpos hlt
  exact ⟨q, hq, hone⟩

theorem hasValue_ofNat_one : HasValue (Float.ofNat 1) 1 :=
  ⟨2 ^ 52, -52, canonical_two_pow (by decide) (by decide), rfl, by norm_num⟩

theorem toNat_pos {k : UInt64} (hk : k ≠ 0) : 0 < k.toNat :=
  Nat.pos_of_ne_zero fun h => hk (UInt64.toNat_inj.mp h)

/-- The double of a word other than zero. -/
theorem exists_hasValue_toFloat {k : UInt64} (hk : k ≠ 0) :
    ∃ q, HasValue k.toFloat q ∧ 1 ≤ q ∧ q ≤ 2 ^ 64 :=
  (ofNat_roundsTo (toNat_pos hk)).exists_hasValue_of_word rfl (toNat_pos hk) k.toNat_lt

/-! ## Sums that are too great to grow -/

/-- A power of two absorbs what is at most a quarter of its last place. -/
theorem RoundsTo.le_two_pow {s : Sign} (hu : RoundsTo q s u) (h : Canonical (2 ^ 52) e)
    (hq : q ≤ 2 ^ (e + 52) + 2 ^ e / 4) : IsDouble u ∧ magnitude u ≤ 2 ^ (e + 52) := by
  have hunits : (2 : ℚ) ^ (e + 52) = ((2 ^ 52 : ℕ) : ℚ) * 2 ^ e := by
    rw [zpow_add₀ two_ne_zero_rat, mul_comm]
    norm_num
  have hpos := two_pow_pos e
  by_cases hbelow : q ≤ 2 ^ (e + 52)
  · rw [hunits] at hbelow ⊢
    exact hu.le h hbelow
  · obtain ⟨r, t, ht, hr, rfl⟩ := hu
    have hnext : (2 : ℚ) ^ (e + 53) = 2 * 2 ^ (e + 52) := by
      rw [show e + 53 = e + 52 + 1 by omega, zpow_add₀ two_ne_zero_rat, zpow_one, mul_comm]
    have hte : t ≤ e := by
      apply ht.le_of_lt h.minExponent_le
      rw [hnext]
      have hquarter : (2 : ℚ) ^ e / 4 < 2 ^ (e + 52) := by
        rw [hunits]
        push_cast
        linarith
      linarith
    have het : e ≤ t := by
      have hlt := (zpow_lt_zpow_iff_right₀ (by norm_num : (1 : ℚ) < 2)).mp
        ((lt_of_not_ge hbelow).trans ht.2.1)
      omega
    obtain rfl : t = e := le_antisymm hte het
    -- In units of the last place the number is nearer to the power than to what comes after it.
    have hr52 : r ≤ 2 ^ 52 := by
      have hdist := (abs_le.mp hr.abs_sub_le).1
      have hscaled : q / 2 ^ t ≤ (2 ^ 52 : ℕ) + 1 / 4 := by
        rw [div_le_iff₀ hpos, add_mul, ← hunits]
        linarith
      have hlt : (r : ℚ) < ((2 ^ 52 + 1 : ℕ) : ℚ) := by
        push_cast at hscaled ⊢
        linarith
      exact Nat.lt_succ_iff.mp (by exact_mod_cast hlt)
    have hmax := h.le_maxExponent
    refine ⟨isDouble_ofRounded s ht hr (Or.inl ⟨by omega, hmax⟩), ?_⟩
    rw [magnitude_ofRounded s t (by omega), hunits]
    exact mul_le_mul_of_nonneg_right (by exact_mod_cast hr52) hpos.le

/-- The sum that is too great for words to tell. -/
theorem canonical_rest : Canonical (2 ^ 52) 66 :=
  canonical_two_pow (by decide) (by decide)

/-- One more number in the range of words leaves a sum in the range that it comes to rest in. -/
theorem HasValue.add_word {j : ℤ} (hx : HasValue x a) (ha : a ≤ 2 ^ 118) (hy : HasValue y b)
    (hb : b ≤ 2 ^ 64) (hj : -1074 ≤ j) (hle : 2 ^ j ≤ a + b) :
    ∃ q, HasValue (x + y) q ∧ 2 ^ j ≤ q ∧ q ≤ 2 ^ 118 := by
  have hu := hx.add hy
  have hquarter : a + b ≤ 2 ^ ((66 : ℤ) + 52) + 2 ^ (66 : ℤ) / 4 := by
    norm_num at ha hb ⊢
    linarith
  obtain ⟨hdouble, hbelow⟩ := hu.le_two_pow canonical_rest hquarter
  have habove := hu.two_pow_le hj hle
  have hpos := (two_pow_pos j).trans_le habove
  exact ⟨_, hasValue_of_roundsTo rfl hu hdouble hpos, habove, by exact_mod_cast hbelow⟩

/-! ## Quotients by a count -/

/-- A number that is not below one has all bits of a significand. -/
theorem full_of_one_le (h : Canonical m e) (hone : (1 : ℚ) ≤ m * 2 ^ e) :
    2 ^ 52 ≤ m ∧ -52 ≤ e := by
  have hlow : -52 ≤ e := by
    by_contra hlt
    have hm : (m : ℚ) < 2 ^ 53 := by exact_mod_cast h.lt
    have he : (2 : ℚ) ^ e ≤ 2 ^ (-53 : ℤ) := zpow_le_zpow_right₀ (by norm_num) (by omega)
    have hbelow : (m : ℚ) * 2 ^ e < 2 ^ 53 * 2 ^ (-53 : ℤ) :=
      mul_lt_mul hm he (two_pow_pos e) (by norm_num)
    norm_num at hbelow
    linarith
  exact ⟨h.full.resolve_left (by omega), hlow⟩

/-- A quotient by a count is below the greatest double by the power of two in the count. -/
theorem div_count_le (hx : x.isFinite) (h : Canonical m e) (hone : (1 : ℚ) ≤ m * 2 ^ e)
    (hy : y.toModel.unpack = .finite .positive m e h.pos) :
    IsDouble (x / y).toModel.unpack ∧
      magnitude (x / y).toModel.unpack ≤ ((2 ^ 53 - 1 : ℕ) : ℚ) * 2 ^ (919 - e) := by
  obtain ⟨hfull, hlow⟩ := full_of_one_le h hone
  have hhigh := h.le_maxExponent
  have hbound : Canonical (2 ^ 53 - 1) (919 - e) :=
    ⟨by decide, by decide, by omega, by omega, Or.inr (by decide)⟩
  have hsplit : (2 : ℚ) ^ (971 : ℤ) = 2 ^ (919 - e) * (2 ^ 52 * 2 ^ e) := by
    rw [← zpow_natCast, ← zpow_add₀ two_ne_zero_rat, ← zpow_add₀ two_ne_zero_rat]
    congr 1
    push_cast
    omega
  refine div_le hx hy hbound ((IsDouble.of_unpack hx).magnitude_le.trans ?_)
  rw [hsplit, ← mul_assoc]
  refine mul_le_mul_of_nonneg_left ?_ (mul_nonneg (Nat.cast_nonneg _) (two_pow_pos _).le)
  exact mul_le_mul_of_nonneg_right (by exact_mod_cast hfull) (two_pow_pos e).le

/-- A sum that reaches the count over its power of two is divided by it to a positive double. -/
theorem HasValue.div_count (hx : HasValue x a) (ha : a ≤ 2 ^ 118) (h : Canonical m e)
    (hone : (1 : ℚ) ≤ m * 2 ^ e) (hy : y.toModel.unpack = .finite .positive m e h.pos)
    (hreach : m * 2 ^ e ≤ a * 2 ^ (e + 52)) :
    ∃ q, HasValue (x / y) q ∧ 2 ^ (-e - 52) ≤ q := by
  have hhigh := h.le_maxExponent
  have hcount : (0 : ℚ) < m * 2 ^ e := zero_lt_one.trans_le hone
  have hu := hx.div ⟨m, e, h, hy, rfl⟩
  have hbelow : a / (m * 2 ^ e) ≤ ((2 ^ 52 : ℕ) : ℚ) * 2 ^ (66 : ℤ) := by
    rw [div_le_iff₀ hcount]
    norm_num at ha ⊢
    linarith
  have habove : (2 : ℚ) ^ (-e - 52) ≤ a / (m * 2 ^ e) := by
    rw [le_div_iff₀ hcount]
    calc (2 : ℚ) ^ (-e - 52) * (m * 2 ^ e)
      _ ≤ 2 ^ (-e - 52) * (a * 2 ^ (e + 52)) :=
          mul_le_mul_of_nonneg_left hreach (two_pow_pos _).le
      _ = a * 2 ^ (-e - 52 + (e + 52)) := by
          rw [mul_left_comm, ← zpow_add₀ two_ne_zero_rat]
      _ = a := by
          rw [show -e - 52 + (e + 52) = 0 by omega, zpow_zero, mul_one]
  have hle := hu.two_pow_le (by omega) habove
  exact ⟨_, hasValue_of_roundsTo rfl hu (hu.le canonical_rest hbelow).1
    ((two_pow_pos _).trans_le hle), hle⟩

/-- The quotient of two sums, both divided by one count, is finite: what the second loses below one
the first has lost below the greatest double. -/
theorem isFinite_div_div {z : Float} (hz : z.isFinite) (hx : HasValue x a) (ha : a ≤ 2 ^ 118)
    (h : Canonical m e) (hone : (1 : ℚ) ≤ m * 2 ^ e)
    (hy : y.toModel.unpack = .finite .positive m e h.pos)
    (hreach : m * 2 ^ e ≤ a * 2 ^ (e + 52)) : (z / y / (x / y)).isFinite := by
  obtain ⟨hdividend, hbelow⟩ := div_count_le hz h hone hy
  obtain ⟨q, ⟨m', e', h', hdivisor, rfl⟩, habove⟩ := hx.div_count ha h hone hy hreach
  have hsplit : (2 : ℚ) ^ (919 - e) = 2 ^ (971 : ℤ) * 2 ^ (-e - 52) := by
    rw [← zpow_add₀ two_ne_zero_rat]
    congr 1
    omega
  refine (div_le hdividend.isFinite hdivisor canonical_greatest (hbelow.trans ?_)).1.isFinite
  rw [hsplit, ← mul_assoc]
  exact mul_le_mul_of_nonneg_left habove (mul_nonneg (Nat.cast_nonneg _) (two_pow_pos _).le)

end BenchTables.Binary64
