import BenchTables.Decimal.Shortest
import BenchTables.Proofs.Binary64.Scientific
import BenchTables.Proofs.Decimal.Digits
import Mathlib.Data.List.TakeWhile

/-!
# The shortest decimal reads back

The interval that the shortest decimal is looked for in holds numbers that are rounded to the double
only (`roundsTo_of_isWithin`). What the search finds lies in it, and so does the exact expansion, so
that whichever of them is taken is rounded to the double, and a numeral of the same number becomes
the double again (`toFloat_eq_of_shortest`).
-/

open Float.Model Float.Model.UnpackedFloat

namespace BenchTables.Decimal

open Binary64

/-- The number that a decimal in scientific notation stands for. -/
def Scientific.value (s : Scientific) : ℚ :=
  s.coefficient * 10 ^ s.exponent

/-- How far the interval of a double reaches below it, in quarters of its last place. -/
def gapBelow (m : ℕ) (e : ℤ) : ℕ :=
  if m = RoundingInterval.leastFull ∧ -1074 < e then 1 else 2

/-- A number lies in the interval of the double `m * 2 ^ e`, and not at an end of it if the
significand is odd. -/
structure IsWithin (m : ℕ) (e : ℤ) (q : ℚ) : Prop where
  lower : (m - gapBelow m e / 4) * 2 ^ e ≤ q
  upper : q ≤ (m + 1 / 2) * 2 ^ e
  inner : Even m ∨ (m - gapBelow m e / 4) * 2 ^ e < q ∧ q < (m + 1 / 2) * 2 ^ e

variable {m c : ℕ} {e k : ℤ} {q : ℚ}

theorem one_le_gapBelow (m : ℕ) (e : ℤ) : 1 ≤ gapBelow m e ∧ gapBelow m e ≤ 2 := by
  unfold gapBelow
  split
  · decide
  · decide

theorem IsWithin.pos (h : IsWithin m e q) (hm : 0 < m) : 0 < q := by
  have hgap : (gapBelow m e : ℚ) ≤ 2 := by exact_mod_cast (one_le_gapBelow m e).2
  have hone : (1 : ℚ) ≤ m := by exact_mod_cast hm
  have hlow : (0 : ℚ) < (m - gapBelow m e / 4) * 2 ^ e :=
    mul_pos (by linarith) (two_pow_pos e)
  exact hlow.trans_le h.lower

/-! ## Rounding -/

/-- Inside the interval the significand is the nearest one. -/
theorem IsWithin.nearestEven (h : IsWithin m e q) : NearestEven (q / 2 ^ e) m := by
  have hunit := two_pow_pos e
  have hgap : (gapBelow m e : ℚ) ≤ 2 := by exact_mod_cast (one_le_gapBelow m e).2
  have hlower := (le_div_iff₀ hunit).mpr h.lower
  have hupper := (div_le_iff₀ hunit).mpr h.upper
  rcases h.inner with heven | ⟨hlower', hupper'⟩
  · have hhalf : |q / 2 ^ e - m| ≤ 1 / 2 := abs_le.mpr ⟨by linarith, by linarith⟩
    exact hhalf.lt_or_eq.imp_right fun heq => ⟨heq, heven⟩
  · have hlower := (lt_div_iff₀ hunit).mpr hlower'
    have hupper := (div_lt_iff₀ hunit).mpr hupper'
    exact .inl (abs_lt.mpr ⟨by linarith, by linarith⟩)

/-- Below a power of two the last place is half as much, and there the number is rounded up. -/
theorem IsWithin.nearestEven_half (h : IsWithin (2 ^ 52) e q) (he : -1074 < e)
    (hq : q < 2 ^ (e + 52)) : NearestEven (q / 2 ^ (e - 1)) (2 ^ 53) := by
  have hunit := two_pow_pos (e - 1)
  have hdouble : (2 : ℚ) ^ e = 2 * 2 ^ (e - 1) := by
    rw [← zpow_one_add₀ two_ne_zero_rat]
    congr 1
    omega
  have hpower : (2 : ℚ) ^ (e + 52) = 2 ^ 53 * 2 ^ (e - 1) := by
    rw [← zpow_natCast, ← zpow_add₀ two_ne_zero_rat]
    congr 1
    push_cast
    omega
  have hgap : gapBelow (2 ^ 52) e = 1 := if_pos ⟨rfl, he⟩
  have hlower := h.lower
  rw [hgap, hdouble] at hlower
  have habove : (2 : ℚ) ^ 53 - 1 / 2 ≤ q / 2 ^ (e - 1) := by
    rw [le_div_iff₀ hunit]
    push_cast at hlower
    linarith
  have hbelow : q / 2 ^ (e - 1) < 2 ^ 53 := by
    rw [div_lt_iff₀ hunit, ← hpower]
    exact hq
  have hhalf : |q / 2 ^ (e - 1) - (2 ^ 53 : ℕ)| ≤ 1 / 2 := by
    push_cast
    exact abs_le.mpr ⟨by linarith, by linarith⟩
  exact hhalf.lt_or_eq.imp_right fun heq => ⟨heq, by decide⟩

theorem unitExponent_of_lt (h : Canonical m e) (hq : IsWithin m e q)
    (hlow : e = -1074 ∨ 2 ^ (e + 52) ≤ q) : UnitExponent q e := by
  refine ⟨h.minExponent_le, ?_, hlow⟩
  have hm : (m : ℚ) + 1 ≤ 2 ^ 53 := by exact_mod_cast h.lt
  calc q ≤ (m + 1 / 2) * 2 ^ e := hq.upper
    _ < 2 ^ 53 * 2 ^ e := mul_lt_mul_of_pos_right (by linarith) (two_pow_pos e)
    _ = 2 ^ (e + 53) := by
      rw [← zpow_natCast, ← zpow_add₀ two_ne_zero_rat, add_comm]
      rfl

/-- A number in the interval of a double is rounded to it. -/
theorem roundsTo_of_isWithin (h : Canonical m e) (hq : IsWithin m e q) :
    RoundsTo q .positive (.finite .positive m e h.pos) := by
  by_cases hlow : e = -1074 ∨ 2 ^ (e + 52) ≤ q
  · exact ⟨m, e, unitExponent_of_lt h hq hlow, hq.nearestEven, (ofRounded_of_lt h).symm⟩
  -- Otherwise the double is a power of two, and the number lies below it.
  obtain ⟨hmin, hbelow⟩ := not_or.mp hlow
  have hfull := h.full.resolve_left hmin
  have he : -1074 < e := lt_of_le_of_ne h.minExponent_le (Ne.symm hmin)
  have hpower : (2 : ℚ) ^ (e + 52) = 2 ^ 52 * 2 ^ e := by
    rw [← zpow_natCast, ← zpow_add₀ two_ne_zero_rat, add_comm]
    rfl
  rw [not_le] at hbelow
  obtain rfl : m = 2 ^ 52 := by
    by_contra hne
    have hm : (2 : ℚ) ^ 52 + 1 ≤ m := by exact_mod_cast lt_of_le_of_ne hfull (Ne.symm hne)
    have hgap : (gapBelow m e : ℚ) ≤ 2 := by exact_mod_cast (one_le_gapBelow m e).2
    have hle : (2 : ℚ) ^ 52 * 2 ^ e ≤ (m - gapBelow m e / 4) * 2 ^ e :=
      mul_le_mul_of_nonneg_right (by linarith) (two_pow_pos e).le
    rw [hpower] at hbelow
    exact absurd (hle.trans hq.lower) (not_le_of_gt hbelow)
  refine ⟨2 ^ 53, e - 1, ⟨by omega, ?_, Or.inr ?_⟩, hq.nearestEven_half he hbelow, ?_⟩
  · rwa [show e - 1 + 53 = e + 52 by omega]
  · have hgap : (gapBelow (2 ^ 52) e : ℚ) ≤ 2 := by exact_mod_cast (one_le_gapBelow (2 ^ 52) e).2
    have hhalf : (2 : ℚ) ^ (e - 1 + 52) = 2 ^ 51 * 2 ^ e := by
      rw [← zpow_natCast, ← zpow_add₀ two_ne_zero_rat]
      congr 1
      push_cast
      omega
    rw [hhalf]
    refine (mul_le_mul_of_nonneg_right ?_ (two_pow_pos e).le).trans hq.lower
    generalize (gapBelow (2 ^ 52) e : ℚ) = gap at hgap
    push_cast
    linarith
  · rw [ofRounded, dif_neg (by decide), if_neg (lt_irrefl _)]
    exact finite_congr _ _ rfl rfl (by omega)

/-! ## The search -/

/-- The powers of ten that an interval is scaled by. -/
theorem ten_pow_div (k : ℤ) :
    ((Nat.pow 10 k.toNat : ℕ) : ℚ) / (Nat.pow 10 (-k).toNat : ℕ) = 10 ^ k := by
  rcases Int.le_total 0 k with hk | hk
  · obtain ⟨n, rfl⟩ := Int.eq_ofNat_of_zero_le hk
    have hzero : (-(n : ℤ)).toNat = 0 := by omega
    simp [hzero]
  · obtain ⟨n, hn⟩ := Int.eq_ofNat_of_zero_le (show 0 ≤ -k by omega)
    obtain rfl : k = -(n : ℤ) := by omega
    have hzero : (-(n : ℤ)).toNat = 0 := by omega
    simp [hzero]

section Scaled

variable {a den : ℕ}

theorem scaled_pos (hden : 0 < den) (k : ℤ) :
    (0 : ℚ) < (den * Nat.pow 10 (-k).toNat : ℕ) := by
  exact_mod_cast Nat.mul_pos hden (Nat.pow_pos (by decide))

/-- An end of an interval, over the denominator that it is compared at. -/
theorem scaled_end (hden : 0 < den) (a : ℕ) (k : ℤ) :
    ((a * Nat.pow 10 (-k).toNat : ℕ) : ℚ) = a / den * (den * Nat.pow 10 (-k).toNat : ℕ) := by
  have hne : (den : ℚ) ≠ 0 := by exact_mod_cast hden.ne'
  push_cast
  field_simp

/-- A decimal over the same denominator. -/
theorem scaled_decimal (den c : ℕ) (k : ℤ) :
    ((c * (den * Nat.pow 10 k.toNat) : ℕ) : ℚ) =
      c * (10 : ℚ) ^ k * (den * Nat.pow 10 (-k).toNat : ℕ) := by
  have hup : ((Nat.pow 10 (-k).toNat : ℕ) : ℚ) ≠ 0 := by
    exact_mod_cast (Nat.pow_pos (n := (-k).toNat) (by decide : 0 < 10)).ne'
  rw [← ten_pow_div k]
  generalize Nat.pow 10 (-k).toNat = up at hup
  generalize Nat.pow 10 k.toNat = down
  push_cast
  field_simp

end Scaled

/-- Where an interval that was scaled contains a number, the interval contains a decimal. -/
theorem contains_inUnits {i : RoundingInterval} (hden : 0 < i.den)
    (h : (i.inUnits k).contains c) :
    (i.lower / i.den : ℚ) ≤ c * 10 ^ k ∧ c * (10 : ℚ) ^ k ≤ i.upper / i.den ∧
      (i.closed ∨ (i.lower / i.den : ℚ) < c * 10 ^ k ∧ c * (10 : ℚ) ^ k < i.upper / i.den) := by
  have hscale := scaled_pos hden k
  have hlower := scaled_end hden i.lower k
  have hupper := scaled_end hden i.upper k
  have hdecimal := scaled_decimal i.den c k
  unfold RoundingInterval.contains RoundingInterval.inUnits at h
  dsimp only at h
  split at h
  next hclosed =>
    obtain ⟨hl, hu⟩ := of_decide_eq_true h
    have hl' : (i.lower / i.den : ℚ) ≤ c * 10 ^ k := by
      rw [← mul_le_mul_iff_of_pos_right hscale, ← hlower, ← hdecimal]
      exact_mod_cast hl
    have hu' : c * (10 : ℚ) ^ k ≤ i.upper / i.den := by
      rw [← mul_le_mul_iff_of_pos_right hscale, ← hupper, ← hdecimal]
      exact_mod_cast hu
    exact ⟨hl', hu', .inl hclosed⟩
  next hopen =>
    obtain ⟨hl, hu⟩ := of_decide_eq_true h
    have hl' : (i.lower / i.den : ℚ) < c * 10 ^ k := by
      rw [← mul_lt_mul_iff_of_pos_right hscale, ← hlower, ← hdecimal]
      exact_mod_cast hl
    have hu' : c * (10 : ℚ) ^ k < i.upper / i.den := by
      rw [← mul_lt_mul_iff_of_pos_right hscale, ← hupper, ← hdecimal]
      exact_mod_cast hu
    exact ⟨hl'.le, hu'.le, .inr ⟨hl', hu'⟩⟩

/-- The ends of the interval of a double. -/
theorem ends_ofDouble (hm : 0 < m) (e : ℤ) :
    0 < (RoundingInterval.ofDouble m e).den ∧
      ((RoundingInterval.ofDouble m e).lower / (RoundingInterval.ofDouble m e).den : ℚ) =
        (m - gapBelow m e / 4) * 2 ^ e ∧
      ((RoundingInterval.ofDouble m e).upper / (RoundingInterval.ofDouble m e).den : ℚ) =
        (m + 1 / 2) * 2 ^ e := by
  have hunit := fraction_value 1 (e - 2)
  have hquarter : (2 : ℚ) ^ (e - 2) = 2 ^ e / 4 := by
    rw [zpow_sub₀ two_ne_zero_rat]
    norm_num
  have hgap : gapBelow m e ≤ 4 * m := by
    have hle := (one_le_gapBelow m e).2
    omega
  refine ⟨BinaryValue.fraction_den_pos 1 (e - 2), ?_, ?_⟩
  · change ((((4 * m - gapBelow m e) * (BinaryValue.fraction 1 (e - 2)).1 : ℕ) : ℚ) /
      (BinaryValue.fraction 1 (e - 2)).2) = _
    rw [Nat.cast_mul, mul_div_assoc, hunit, hquarter, Nat.cast_sub hgap]
    push_cast
    ring
  · change ((((4 * m + 2) * (BinaryValue.fraction 1 (e - 2)).1 : ℕ) : ℚ) /
      (BinaryValue.fraction 1 (e - 2)).2) = _
    rw [Nat.cast_mul, mul_div_assoc, hunit, hquarter]
    push_cast
    ring

theorem isWithin_of_contains (hm : 0 < m)
    (h : ((RoundingInterval.ofDouble m e).inUnits k).contains c) : IsWithin m e (c * 10 ^ k) := by
  obtain ⟨hden, hlower, hupper⟩ := ends_ofDouble hm e
  obtain ⟨hl, hu, hinner⟩ := contains_inUnits hden h
  rw [hlower] at hl hinner
  rw [hupper] at hu hinner
  refine ⟨hl, hu, hinner.imp_left fun hclosed => ?_⟩
  exact Nat.even_iff.mpr (of_decide_eq_true hclosed)

/-- The search takes one of the two numbers next to the double, and one that is contained. -/
theorem contains_of_nearest? {i : RoundingInterval} (h : i.nearest? = some c) :
    i.contains c := by
  unfold RoundingInterval.nearest? at h
  dsimp only at h
  split at h
  next hbelow =>
    split at h
    next habove =>
      split at h
      · cases h
        exact hbelow
      · cases h
        exact habove
      · cases h
        rcases Nat.mod_two_eq_zero_or_one (i.value / i.den) with hmod | hmod
        · rw [hmod]
          exact hbelow
        · rw [hmod]
          exact habove
    next =>
      cases h
      exact hbelow
  next =>
    split at h
    next habove =>
      cases h
      exact habove
    next => cases h

/-! ## The exact expansion -/

theorem value_expansion (m : ℕ) (e : ℤ) : (expansion m e).value = m * 2 ^ e := by
  unfold expansion Scientific.value
  split
  next he =>
    obtain ⟨n, rfl⟩ := Int.eq_ofNat_of_zero_le he
    simp
  next he =>
    obtain ⟨n, hn⟩ := Int.eq_ofNat_of_zero_le (show 0 ≤ -e by omega)
    obtain rfl : e = -(n : ℤ) := by omega
    have hten : (10 : ℚ) ^ n = 2 ^ n * 5 ^ n := by
      rw [← mul_pow]
      norm_num
    have hfive : (5 : ℚ) ^ n ≠ 0 := pow_ne_zero n (by norm_num)
    have htwo : (2 : ℚ) ^ n ≠ 0 := pow_ne_zero n two_ne_zero_rat
    simp only [neg_neg, Int.toNat_natCast, Nat.pow_eq, Nat.cast_mul, Nat.cast_pow, Nat.cast_ofNat,
      zpow_neg, zpow_natCast, hten]
    field_simp

theorem isWithin_self (m : ℕ) (e : ℤ) : IsWithin m e (m * 2 ^ e) := by
  have hunit := two_pow_pos e
  have hgap : (1 : ℚ) ≤ gapBelow m e := by exact_mod_cast (one_le_gapBelow m e).1
  have hlower : (m - gapBelow m e / 4 : ℚ) * 2 ^ e < m * 2 ^ e :=
    mul_lt_mul_of_pos_right (by linarith) hunit
  have hupper : (m : ℚ) * 2 ^ e < (m + 1 / 2) * 2 ^ e :=
    mul_lt_mul_of_pos_right (by linarith) hunit
  exact ⟨hlower.le, hupper.le, .inr ⟨hlower, hupper⟩⟩

/-! ## Zeros at the end -/

theorem digitsValue_append_zeros (ds : List Char) (n : ℕ) :
    digitsValue (ds ++ List.replicate n '0') = digitsValue ds * 10 ^ n := by
  induction n with
  | zero => rw [List.replicate_zero, List.append_nil, pow_zero, mul_one]
  | succ n ih =>
    rw [List.replicate_succ', ← List.append_assoc, digitsValue_append_singleton, ih, pow_succ,
      Nat.sub_self, Nat.add_zero, Nat.mul_comm, Nat.mul_assoc]

theorem exists_zeros (ds : List Char) :
    ∃ n, ds = (ds.reverse.dropWhile (· = '0')).reverse ++ List.replicate n '0' := by
  have hzeros : (ds.reverse.takeWhile (· = '0')).reverse =
      List.replicate (ds.reverse.takeWhile (· = '0')).length '0' := by
    rw [List.eq_replicate_iff, List.length_reverse]
    refine ⟨rfl, fun c hc => ?_⟩
    have hzero := List.mem_takeWhile_imp (List.mem_reverse.mp hc)
    exact of_decide_eq_true hzero
  refine ⟨(ds.reverse.takeWhile (· = '0')).length, ?_⟩
  rw [← hzeros, ← List.reverse_append, List.takeWhile_append_dropWhile, List.reverse_reverse]

/-- Without the zeros at its end a coefficient stands for the same number. -/
theorem value_normalize (s : Scientific) : s.normalize.value = s.value := by
  obtain ⟨n, hn⟩ := exists_zeros (digits s.coefficient)
  unfold Scientific.normalize
  dsimp only
  generalize ((digits s.coefficient).reverse.dropWhile (· = '0')).reverse = kept at hn ⊢
  have hcoefficient : s.coefficient = digitsValue kept * 10 ^ n := by
    rw [← digitsValue_append_zeros, ← hn, digitsValue_digits]
  have hlength : (digits s.coefficient).length - kept.length = n := by
    rw [hn, List.length_append, List.length_replicate, Nat.add_sub_cancel_left]
  unfold Scientific.value
  dsimp only
  rw [hlength, hcoefficient, Nat.cast_mul, Nat.cast_pow, Nat.cast_ofNat,
    zpow_add₀ (by norm_num : (10 : ℚ) ≠ 0), zpow_natCast]
  ring

/-! ## The shortest decimal -/

theorem isWithin_shortest (hm : 0 < m) (e : ℤ) : IsWithin m e (shortest m e).value := by
  unfold shortest
  rw [value_normalize]
  dsimp only
  cases hfound : (List.range 17).findSome? fun (n : ℕ) =>
      let k := (RoundingInterval.ofDouble m e).leading - n
      ((RoundingInterval.ofDouble m e).inUnits k).nearest?.map (⟨·, k⟩ : ℕ → Scientific) with
  | none =>
    rw [Option.getD_none, value_expansion]
    exact isWithin_self m e
  | some s =>
    obtain ⟨n, -, hn⟩ := List.exists_of_findSome?_eq_some hfound
    obtain ⟨c, hc, rfl⟩ := Option.map_eq_some_iff.mp hn
    exact isWithin_of_contains hm (contains_of_nearest? hc)

theorem coefficient_shortest_pos (hm : 0 < m) (e : ℤ) : 0 < (shortest m e).coefficient := by
  have hpos := (isWithin_shortest hm e).pos hm
  rw [Scientific.value] at hpos
  exact_mod_cast pos_of_mul_pos_left hpos (zpow_pos (by norm_num) _).le

/-- A numeral is rounded to the double of its sign and of the magnitude it is rounded to. -/
theorem unpack_toFloat {n : Numeral} {s : Sign} (hsign : n.negative = BinaryValue.isMinus s)
    (hc : 0 < n.coefficient) (h : Canonical m e)
    (hr : RoundsTo (n.coefficient * 10 ^ n.exponent) .positive (.finite .positive m e h.pos)) :
    n.toFloat.toModel.unpack = .finite s m e h.pos := by
  have hmagnitude : (if 0 ≤ n.exponent then Float.ofScientific n.coefficient false n.exponent.toNat
      else Float.ofScientific n.coefficient true (-n.exponent).toNat).toModel.unpack =
        .finite .positive m e h.pos := by
    by_cases he : 0 ≤ n.exponent
    · obtain ⟨u, hu, hmodel⟩ := ofScientific_mul_roundsTo hc n.exponent.toNat
      rw [← zpow_natCast, Int.toNat_of_nonneg he] at hu
      rw [if_pos he, hmodel, hu.unique hr]
      exact unpack_pack_finite .positive h
    · obtain ⟨u, hu, hmodel⟩ := ofScientific_div_roundsTo hc (-n.exponent).toNat
      rw [div_eq_mul_inv, ← zpow_natCast, ← zpow_neg, Int.toNat_of_nonneg (by omega), neg_neg] at hu
      rw [if_neg he, hmodel, hu.unique hr]
      exact unpack_pack_finite .positive h
  unfold Numeral.toFloat
  dsimp only
  generalize (if 0 ≤ n.exponent then Float.ofScientific n.coefficient false n.exponent.toNat
    else Float.ofScientific n.coefficient true (-n.exponent).toNat) = y at hmagnitude
  rw [hsign]
  cases s with
  | positive => exact hmagnitude
  | negative =>
    have hy : y.isFinite := by
      rw [isFinite_iff, hmagnitude]
      rfl
    rw [BinaryValue.isMinus, if_pos rfl, unpack_neg hy, hmagnitude]
    rfl

/-- A numeral with the sign of a double and the number of its shortest decimal is the double. -/
theorem toFloat_eq_of_shortest {x : Float} {n : Numeral} {s : Sign} {hm : 0 < m}
    (hx : x.toModel.unpack = .finite s m e hm) (hsign : n.negative = BinaryValue.isMinus s)
    (hvalue : n.coefficient * (10 : ℚ) ^ n.exponent = (shortest m e).value) : n.toFloat = x := by
  have hcanonical := Canonical.of_unpack hx
  have hwithin := isWithin_shortest hm e
  have hpos : (0 : ℚ) < n.coefficient * 10 ^ n.exponent := hvalue ▸ hwithin.pos hm
  have hc : 0 < n.coefficient := by
    exact_mod_cast pos_of_mul_pos_left hpos (zpow_pos (by norm_num) _).le
  have hunpack := unpack_toFloat hsign hc hcanonical
    (hvalue ▸ roundsTo_of_isWithin hcanonical hwithin)
  refine eq_of_unpack_eq ?_ (hunpack.trans hx.symm)
  rw [isFinite_iff, hunpack]
  rfl

end BenchTables.Decimal
