import BenchTables.Proofs.Binary64.Order
import BenchTables.Proofs.Binary64.Units
import BenchTables.Proofs.Decimal.Denotation

/-!
# The doubles of decimal numbers

A decimal number is turned into a double by multiplying or dividing its coefficient by a power of
ten.  Either way that is a single rounding, since the coefficient and the power are doubles
themselves or else are not rounded before (`ofScientific_mul_roundsTo`,
`ofScientific_div_roundsTo`).  So a numeral becomes the double nearest to its number, and beyond all
doubles an infinity: `toFloat_cases`.
-/

open Float.Model Float.Model.UnpackedFloat

namespace BenchTables.Binary64

open Decimal (Numeral signed nearestEven_of_abs_lt)

variable {x y : Float} {a b q : ℚ} {c k : ℕ} {s : Sign} {u : UnpackedFloat}

/-! ## Products of doubles -/

theorem HasValue.mul (hx : HasValue x a) (hy : HasValue y b) (hone : 1 ≤ a) :
    RoundsTo (a * b) .positive
      (UnpackedFloat.mul .binary64 x.toModel.unpack y.toModel.unpack) := by
  obtain ⟨m, e, h, hx, rfl⟩ := hx
  obtain ⟨m', e', h', hy, rfl⟩ := hy
  rw [hx, hy]
  -- One factor has all its bits, so the product has enough of them.
  have hfull := (full_of_one_le h hone).1
  exact mul_roundsTo e e' h.pos h'.pos (hfull.trans (Nat.le_mul_of_pos_right m h'.pos))

/-- Powers of ten that are doubles. -/
theorem hasValue_powerOfTen : ∀ (k : ℕ) (hk : k < Float.exactlyRepresentablePowersOfTen.size),
    HasValue Float.exactlyRepresentablePowersOfTen[k] (10 ^ k) := by
  have htable : ∀ i : Fin Float.exactlyRepresentablePowersOfTen.size,
      Float.exactlyRepresentablePowersOfTen[i.val].isFinite ∧
        numberOf Float.exactlyRepresentablePowersOfTen[i.val] =
          ((10 ^ i.val : ℕ) : ℚ) * 2 ^ (0 : ℤ) := by
    decide +kernel
  intro k hk
  obtain ⟨hfinite, hvalue⟩ := htable ⟨k, hk⟩
  have hunits := (HasUnits.of_value hfinite hvalue).hasValue (pow_ne_zero _ (by decide))
  rwa [zpow_zero, mul_one, Nat.cast_pow, Nat.cast_ofNat] at hunits

theorem hasValue_coefficient (hc : 0 < c) (hlt : c < 2 ^ 53) : HasValue c.toUInt64.toFloat c := by
  have hword : c.toUInt64.toNat = c := by
    rw [UInt64.toNat_ofNat']
    exact Nat.mod_eq_of_lt (hlt.trans (by decide))
  have hne : c.toUInt64 ≠ 0 := by
    intro hzero
    rw [hzero] at hword
    exact hc.ne hword
  have hvalue := hasValue_toFloat hne (hword.trans_le hlt.le)
  rwa [hword] at hvalue

/-! ## Beyond all doubles and below all but zero -/

theorem greatest_lt : ((2 ^ 53 - 1 : ℕ) : ℚ) * 2 ^ (971 : ℤ) < 2 ^ (1024 : ℤ) := by
  have hsplit : (2 : ℚ) ^ (1024 : ℤ) = 2 ^ 53 * 2 ^ (971 : ℤ) := by
    rw [← zpow_natCast, ← zpow_add₀ two_ne_zero_rat]
    rfl
  rw [hsplit]
  exact mul_lt_mul_of_pos_right (by norm_num) (two_pow_pos 971)

/-- A number that is beyond all doubles is packed as an infinity. -/
theorem RoundsTo.pack_eq_infinity (hu : RoundsTo q s u) (hq : 2 ^ (1024 : ℤ) ≤ q) :
    Float.Model.pack u = Float.Model.pack (.infinity s) := by
  refine hu.isDouble_or_pack_eq.resolve_left fun hdouble => ?_
  have hlow := hu.two_pow_le (by decide) hq
  exact absurd (hlow.trans hdouble.magnitude_le) (not_le_of_gt greatest_lt)

/-- A number below half of the least double is rounded to zero. -/
theorem roundsTo_zero (hpos : 0 < q) (hq : q < 2 ^ (-1075 : ℤ)) : RoundsTo q s (.zero s) := by
  have hunit := two_pow_pos (-1074)
  have hhalf : (2 : ℚ) ^ (-1075 : ℤ) = 1 / 2 * 2 ^ (-1074 : ℤ) := by
    rw [show (-1075 : ℤ) = -1 + -1074 by norm_num, zpow_add₀ two_ne_zero_rat]
    norm_num
  refine ⟨0, -1074, ⟨le_rfl, ?_, Or.inl rfl⟩, nearestEven_of_abs_lt ?_, rfl⟩
  · exact hq.trans_le (zpow_le_zpow_right₀ (by norm_num) (by norm_num))
  · rw [Nat.cast_zero, sub_zero, abs_of_pos (div_pos hpos hunit), div_lt_iff₀ hunit, ← hhalf]
    exact hq

/-! ## Coefficients and powers of ten -/

/-- A power of ten is no less than that of two. -/
theorem two_pow_le_ten_pow (k : ℕ) : (2 : ℚ) ^ (k : ℤ) ≤ 10 ^ k := by
  rw [zpow_natCast]
  exact pow_le_pow_left₀ (by norm_num) (by norm_num) k

theorem ofScientific_mul_roundsTo (hc : 0 < c) (k : ℕ) :
    ∃ u, RoundsTo (c * 10 ^ k) .positive u ∧
      (Float.ofScientific c false k).toModel = Float.Model.pack u := by
  have hone : (1 : ℚ) ≤ c := by exact_mod_cast hc
  by_cases hexact : c < 2 ^ 53 ∧ k ≤ 22
  · -- Coefficient and power are doubles, and only their product is rounded.
    have hpower := hasValue_powerOfTen k (Nat.lt_succ_of_le hexact.2)
    refine ⟨_, (hasValue_coefficient hc hexact.1).mul hpower hone, ?_⟩
    rw [Float.ofScientific, dif_pos hexact, if_neg Bool.false_ne_true]
    rfl
  rw [Float.ofScientific, dif_neg hexact, if_neg Bool.false_ne_true]
  change ∃ u, _ ∧ Float.Model.pack (UnpackedFloat.ofScientific .binary64 c k) = _
  have hbits : (2 : ℤ) ^ Format.binary64.exponentBits = 2048 := rfl
  rw [UnpackedFloat.ofScientific, dif_neg hc.ne']
  by_cases hlarge : (2 : ℤ) ^ Format.binary64.exponentBits < k
  · -- The model does not compute a power that is beyond all doubles.
    have hu := ofNat_roundsTo (Nat.mul_pos hc (Nat.pow_pos (n := k) (by decide : 0 < 10)))
    push_cast at hu
    refine ⟨_, hu, ?_⟩
    rw [if_pos hlarge]
    refine (hu.pack_eq_infinity ?_).symm
    calc (2 : ℚ) ^ (1024 : ℤ) ≤ 2 ^ (k : ℤ) := zpow_le_zpow_right₀ (by norm_num) (by omega)
      _ ≤ 10 ^ k := two_pow_le_ten_pow k
      _ ≤ c * 10 ^ k := le_mul_of_one_le_left (by positivity) hone
  · -- The coefficient is shifted so far that the product has all bits of a significand.
    have hvalue : (c : ℚ) * 10 ^ k =
        (c <<< 53 : ℕ) * 2 ^ (-53 : ℤ) * ((10 ^ k : ℕ) * 2 ^ (0 : ℤ)) := by
      rw [Nat.shiftLeft_eq, zpow_zero, mul_one]
      push_cast
      rw [mul_assoc (c : ℚ)]
      norm_num
    have hfull : 2 ^ 52 ≤ c <<< 53 * 10 ^ k := by
      refine le_trans ?_ (Nat.le_mul_of_pos_right _ (Nat.pow_pos (by decide)))
      rw [Nat.shiftLeft_eq]
      omega
    have hu := mul_roundsTo (-53) 0 (Nat.shiftLeft_pos_iff.mpr hc)
      (Nat.pow_pos (n := k) (by decide : 0 < 10)) hfull
    rw [← hvalue] at hu
    refine ⟨_, hu, ?_⟩
    rw [if_neg hlarge, if_neg (by omega), if_pos (Int.natCast_nonneg k)]
    rfl

theorem ofScientific_div_roundsTo (hc : 0 < c) (k : ℕ) :
    ∃ u, RoundsTo (c / 10 ^ k) .positive u ∧
      (Float.ofScientific c true k).toModel = Float.Model.pack u := by
  by_cases hexact : c < 2 ^ 53 ∧ k ≤ 22
  · have hpower := hasValue_powerOfTen k (Nat.lt_succ_of_le hexact.2)
    refine ⟨_, (hasValue_coefficient hc hexact.1).div hpower, ?_⟩
    rw [Float.ofScientific, dif_pos hexact, if_pos rfl]
    rfl
  rcases Nat.eq_zero_or_pos k with rfl | hk
  · -- Without a power nothing is divided.
    obtain ⟨u, hu, hmodel⟩ := ofScientific_mul_roundsTo hc 0
    rw [Float.ofScientific, dif_neg hexact, if_neg Bool.false_ne_true] at hmodel
    rw [pow_zero, mul_one] at hu
    rw [Float.ofScientific, dif_neg hexact, if_pos rfl, pow_zero, div_one]
    exact ⟨u, hu, hmodel⟩
  rw [Float.ofScientific, dif_neg hexact, if_pos rfl]
  change ∃ u, _ ∧ Float.Model.pack (UnpackedFloat.ofScientific .binary64 c (Int.negOfNat k)) = _
  have hbits : (2 : ℤ) ^ Format.binary64.exponentBits = 2048 := rfl
  have hneg : Int.negOfNat k = -(k : ℤ) := Int.negOfNat_eq
  rw [UnpackedFloat.ofScientific, dif_neg hc.ne', hneg, if_neg (by omega)]
  by_cases hsmall : -(k : ℤ) < -((2 : ℤ) ^ Format.binary64.exponentBits + c.log2)
  · -- Nor does it compute one that leaves nothing of the coefficient.
    have hpos : (0 : ℚ) < c / 10 ^ k := by positivity
    refine ⟨_, roundsTo_zero hpos ?_, by rw [if_pos hsmall]⟩
    have hlt : (c : ℚ) < 2 ^ ((c.log2 : ℤ) + 1) := by
      exact_mod_cast Nat.lt_log2_self (n := c)
    rw [div_lt_iff₀ (by positivity)]
    calc (c : ℚ) < 2 ^ ((c.log2 : ℤ) + 1) := hlt
      _ ≤ 2 ^ (-1075 + (k : ℤ)) := zpow_le_zpow_right₀ (by norm_num) (by omega)
      _ = 2 ^ (-1075 : ℤ) * 2 ^ (k : ℤ) := zpow_add₀ two_ne_zero_rat _ _
      _ ≤ 2 ^ (-1075 : ℤ) * 10 ^ k :=
          mul_le_mul_of_nonneg_left (two_pow_le_ten_pow k) (two_pow_pos _).le
  · have hexponent : (-(-(k : ℤ))).toNat = k := by omega
    have hvalue : (c : ℚ) / 10 ^ k =
        c * 2 ^ (0 : ℤ) / ((10 ^ (-(-(k : ℤ))).toNat : ℕ) * 2 ^ (0 : ℤ)) := by
      rw [hexponent, zpow_zero, mul_one, mul_one]
      push_cast
      rfl
    have hpower : 0 < 10 ^ (-(-(k : ℤ))).toNat := Nat.pow_pos (by decide)
    have hu := div_roundsTo .positive .positive 0 0 hc hpower
    rw [← hvalue] at hu
    refine ⟨_, hu, ?_⟩
    rw [if_neg hsmall, if_neg (by omega)]

/-! ## The nearest double -/

/-- The greatest of the doubles. -/
def greatest : Float :=
  Float.ofBits 0x7FEFFFFFFFFFFFFF

theorem numberOf_greatest : numberOf greatest = ((2 ^ 53 - 1 : ℕ) : ℚ) * 2 ^ (971 : ℤ) := rfl

theorem abs_numberOf_le (hx : x.isFinite) : |numberOf x| ≤ numberOf greatest := by
  rw [numberOf, abs_valueOf, numberOf_greatest]
  exact (IsDouble.of_unpack hx).magnitude_le

theorem isNearest_of_eq (hx : x.isFinite) (h : numberOf x = q) : IsNearest q x := by
  have hzero : |q - numberOf x| = 0 := by rw [h, sub_self, abs_zero]
  refine ⟨hx, fun y _ => hzero.trans_le (abs_nonneg _), fun y _ htie hne => ?_⟩
  rw [hzero] at htie
  exact absurd (h.trans (sub_eq_zero.mp (abs_eq_zero.mp htie.symm))).symm hne

/-- Beyond all doubles the greatest one is the nearest. -/
theorem isNearest_greatest (hq : numberOf greatest < q) : IsNearest q greatest := by
  have hbelow : ∀ y : Float, y.isFinite → numberOf y ≤ numberOf greatest := fun y hy =>
    (le_abs_self _).trans (abs_numberOf_le hy)
  have hdist : ∀ y : Float, y.isFinite → |q - numberOf y| = q - numberOf y := fun y hy =>
    abs_of_pos (sub_pos.mpr ((hbelow y hy).trans_lt hq))
  refine ⟨rfl, fun y hy => ?_, fun y hy htie hne => ?_⟩
  · rw [hdist y hy, hdist greatest rfl]
    exact sub_le_sub_left (hbelow y hy) q
  · rw [hdist y hy, hdist greatest rfl] at htie
    exact absurd (by linarith) hne

theorem isFinite_neg (hx : x.isFinite) : (-x).isFinite := by
  rw [isFinite_iff, unpack_neg hx]
  have hdouble := IsDouble.of_unpack hx
  generalize x.toModel.unpack = u at hdouble
  cases hdouble with
  | zero s => rfl
  | finite s h => rfl

theorem isFinite_neg_of_not (hx : x.isFinite = false) : (-x).isFinite = false := by
  change (Float.Model.pack x.toModel.unpack.neg).unpack.isFinite = false
  apply isFinite_pack_of_not
  change x.toModel.unpack.isFinite = false at hx
  cases hu : x.toModel.unpack with
  | infinity s => rfl
  | notANumber => rfl
  | zero s =>
    rw [hu] at hx
    cases hx
  | finite s m e hm =>
    rw [hu] at hx
    cases hx

theorem significand_neg (hx : x.isFinite) :
    significand (-x).toModel.unpack = significand x.toModel.unpack := by
  rw [unpack_neg hx]
  cases x.toModel.unpack with
  | notANumber => rfl
  | infinity s => rfl
  | zero s => rfl
  | finite s m e hm => rfl

theorem IsNearest.neg (h : IsNearest q x) : IsNearest (-q) (-x) := by
  -- The doubles are symmetric about zero, so distances to `-q` are those to `q`.
  have hmirror : ∀ y : Float, y.isFinite → |-q - numberOf y| = |q - numberOf (-y)| := by
    intro y hy
    rw [numberOf_neg hy, ← abs_neg]
    congr 1
    ring
  have hsame : |-q - numberOf (-x)| = |q - numberOf x| := by
    rw [numberOf_neg h.isFinite, ← abs_neg]
    congr 1
    ring
  refine ⟨isFinite_neg h.isFinite, fun y hy => ?_, fun y hy htie hne => ?_⟩
  · rw [hsame, hmirror y hy]
    exact h.nearest (-y) (isFinite_neg hy)
  · rw [hsame, hmirror y hy] at htie
    rw [significand_neg h.isFinite]
    refine h.even (-y) (isFinite_neg hy) htie fun heq => hne ?_
    rw [numberOf_neg h.isFinite, ← heq, numberOf_neg hy, neg_neg]

theorem RoundsTo.nearest_or_infinite (hu : RoundsTo q .positive u)
    (hx : x.toModel = Float.Model.pack u) :
    IsNearest q x ∨ x.isFinite = false ∧ numberOf greatest < q := by
  by_cases hdouble : IsDouble u
  · exact Or.inl (isNearest_of_roundsTo hu hdouble (hx ▸ hdouble.unpack_pack))
  · right
    constructor
    · have hinfinity := hu.isDouble_or_infinity.resolve_left hdouble
      rw [← hx] at hinfinity
      exact Bool.eq_false_iff.mpr fun hfinite => by
        rw [isFinite_iff, hinfinity] at hfinite
        cases hfinite
    · by_contra hle
      exact hdouble (hu.le canonical_greatest (numberOf_greatest ▸ not_lt.mp hle)).1

/-! ## Numerals -/

theorem ofScientific_zero (down : Bool) (k : ℕ) :
    (Float.ofScientific 0 down k).isFinite ∧ numberOf (Float.ofScientific 0 down k) = 0 := by
  by_cases hexact : k ≤ 22
  · have htable : ∀ (down : Bool) (k : Fin 23), (Float.ofScientific 0 down k.val).isFinite ∧
        numberOf (Float.ofScientific 0 down k.val) = 0 := by
      decide +kernel
    exact htable down ⟨k, by omega⟩
  · -- Beyond the table of powers a coefficient of zero is told apart before any power is taken.
    have hunpack : (Float.ofScientific 0 down k).toModel.unpack = .zero .positive := by
      rw [Float.ofScientific, dif_neg (fun h => hexact h.2)]
      change (Float.Model.pack (UnpackedFloat.ofScientific .binary64 0 _)).unpack = _
      rw [UnpackedFloat.ofScientific, dif_pos rfl]
      rfl
    rw [isFinite_iff, numberOf, hunpack]
    exact ⟨rfl, rfl⟩

/-- A coefficient and a power of ten become the nearest double, unless they are beyond all. -/
theorem ofScientific_cases (c : ℕ) (down : Bool) (k : ℕ) :
    IsNearest (c * 10 ^ (if down then -(k : ℤ) else k)) (Float.ofScientific c down k) ∨
      (Float.ofScientific c down k).isFinite = false ∧
        numberOf greatest < c * 10 ^ (if down then -(k : ℤ) else k) := by
  rcases Nat.eq_zero_or_pos c with rfl | hc
  · left
    obtain ⟨hfinite, hvalue⟩ := ofScientific_zero down k
    refine isNearest_of_eq hfinite ?_
    rw [hvalue, Nat.cast_zero, zero_mul]
  cases down with
  | false =>
    obtain ⟨u, hu, hmodel⟩ := ofScientific_mul_roundsTo hc k
    rw [if_neg Bool.false_ne_true, zpow_natCast]
    exact hu.nearest_or_infinite hmodel
  | true =>
    obtain ⟨u, hu, hmodel⟩ := ofScientific_div_roundsTo hc k
    rw [if_pos rfl, zpow_neg, zpow_natCast, ← div_eq_mul_inv]
    exact hu.nearest_or_infinite hmodel

/-- A numeral becomes the double nearest to its number, unless the number is beyond all doubles. -/
theorem toFloat_cases (n : Numeral) : IsNearest n.value n.toFloat ∨
    n.toFloat.isFinite = false ∧ numberOf greatest < |n.value| := by
  obtain ⟨negative, c, e⟩ := n
  have hmagnitude : IsNearest (c * 10 ^ e) (Numeral.toFloat ⟨false, c, e⟩) ∨
      (Numeral.toFloat ⟨false, c, e⟩).isFinite = false ∧ numberOf greatest < c * 10 ^ e := by
    unfold Numeral.toFloat
    dsimp only
    rw [if_neg Bool.false_ne_true]
    split
    next he =>
      have h := ofScientific_cases c false e.toNat
      rwa [if_neg Bool.false_ne_true, Int.toNat_of_nonneg he] at h
    next he =>
      have h := ofScientific_cases c true (-e).toNat
      rwa [if_pos rfl, Int.toNat_of_nonneg (by omega), neg_neg] at h
  have hpos : (0 : ℚ) ≤ c * 10 ^ e := by positivity
  cases negative with
  | false =>
    change IsNearest (c * 10 ^ e) _ ∨ _ ∧ _ < |(c : ℚ) * 10 ^ e|
    rwa [abs_of_nonneg hpos]
  | true =>
    have hminus : Numeral.toFloat ⟨true, c, e⟩ = -Numeral.toFloat ⟨false, c, e⟩ := rfl
    rw [hminus]
    change IsNearest (-(c * 10 ^ e)) _ ∨ _ ∧ _ < |-((c : ℚ) * 10 ^ e)|
    rw [abs_neg, abs_of_nonneg hpos]
    exact hmagnitude.imp IsNearest.neg fun h => ⟨isFinite_neg_of_not h.1, h.2⟩

/-- Every decimal number has a nearest double, which is the one that it becomes; what becomes an
infinity is nearest to a double at the end of the range. -/
theorem exists_isNearest_toFloat (n : Numeral) : ∃ x, IsNearest n.value x ∧
    (n.toFloat = x ∨ n.toFloat.isFinite = false ∧ |numberOf x| = numberOf greatest) := by
  rcases toFloat_cases n with hnear | ⟨hinfinite, hbeyond⟩
  · exact ⟨n.toFloat, hnear, Or.inl rfl⟩
  have hgreatest : |numberOf greatest| = numberOf greatest :=
    abs_of_nonneg (mul_nonneg (Nat.cast_nonneg _) (two_pow_pos _).le)
  rcases lt_abs.mp hbeyond with habove | hbelow
  · exact ⟨greatest, isNearest_greatest habove, Or.inr ⟨hinfinite, hgreatest⟩⟩
  · refine ⟨-greatest, ?_, Or.inr ⟨hinfinite, ?_⟩⟩
    · rw [← neg_neg n.value]
      exact (isNearest_greatest hbelow).neg
    · rw [numberOf_neg rfl, abs_neg, hgreatest]

end BenchTables.Binary64
