import BenchTables.Proofs.Binary64.Scientific
import BenchTables.Proofs.Decimal.Digits

/-!
# Two places, read back

A quantity is written with two decimals and read back as the double nearest to that text.
`twoPlaces_reread` says that the second writing gives the same text for every double.  From
`2 ^ 46` on a double is the nearest one to its own text, so that it comes back itself; below that
the double that comes back is too near to the text for the hundredths to change.
-/

open Float.Model Float.Model.UnpackedFloat

namespace BenchTables.Decimal

open Binary64

/-- The double that the text of a quantity is read back as. -/
def reread (x : Float) : Float :=
  match readFloat (twoPlaces x).toList with
  | .ok y => y
  | .error _ => x

/-! ## Hundredths as a double -/

/-- A number of hundredths becomes the nearest double. -/
theorem ofScientific_hundredths {n : ℕ} (hpos : 0 < n) :
    ∃ u, RoundsTo (n / 100) .positive u ∧
      (Float.ofScientific n true 2).toModel = Float.Model.pack u := by
  have h := ofScientific_div_roundsTo hpos 2
  rwa [show (10 : ℚ) ^ 2 = 100 by norm_num] at h

theorem toFloat_hundredths (negative : Bool) (n : ℕ) :
    Numeral.toFloat ⟨negative, n, -2⟩ =
      if negative then -Float.ofScientific n true 2 else Float.ofScientific n true 2 := by
  rw [Numeral.toFloat]
  rfl

/-- A numeral of hundredths has its sign and the magnitude of the nearest double. -/
theorem ofFloat_toFloat_hundredths (negative : Bool) {n m : ℕ} {e : ℤ} (hpos : 0 < n)
    (h : Canonical m e)
    (hnear : ∀ u, RoundsTo (n / 100) .positive u → u = .finite .positive m e h.pos) :
    BinaryValue.ofFloat (Numeral.toFloat ⟨negative, n, -2⟩) = .finite negative m e := by
  obtain ⟨u, hu, hmodel⟩ := ofScientific_hundredths hpos
  rw [hnear u hu] at hmodel
  have hunpack : (Float.ofScientific n true 2).toModel.unpack = .finite .positive m e h.pos := by
    rw [hmodel]
    exact unpack_pack_finite .positive h
  rw [toFloat_hundredths]
  cases negative
  · rw [if_neg Bool.false_ne_true, BinaryValue.ofFloat, hunpack]
    rfl
  · have hneg : (-Float.ofScientific n true 2).toModel.unpack = .finite .negative m e h.pos := by
      change (Float.Model.pack (Float.ofScientific n true 2).toModel.unpack.neg).unpack = _
      rw [hunpack]
      exact unpack_pack_finite .negative h
    rw [if_pos rfl, BinaryValue.ofFloat, hneg]
    rfl

theorem ofFloat_toFloat_zero (negative : Bool) :
    BinaryValue.ofFloat (Numeral.toFloat ⟨negative, 0, -2⟩) = .finite negative 0 0 := by
  cases negative <;> decide +kernel

/-! ## The second writing -/

variable {m : ℕ} {e : ℤ}

/-- How far a number of hundredths is from the double that it was rounded from. -/
theorem abs_hundredths_sub_le (m : ℕ) (e : ℤ) :
    |(hundredths m e : ℚ) / 100 - m * 2 ^ e| ≤ 1 / 200 := by
  have h := abs_le.mp (hundredths_nearestEven m e).abs_sub_le
  rw [abs_le]
  constructor <;> linarith

/-- With a unit of at least `2 ^ (-6)` a double is the nearest one to its own hundredths. -/
theorem roundsTo_hundredths_of_large {u : UnpackedFloat} (h : Canonical m e) (he : -6 ≤ e)
    (hu : RoundsTo (hundredths m e / 100) .positive u) : u = .finite .positive m e h.pos := by
  have hunit : (1 : ℚ) / 64 ≤ 2 ^ e :=
    calc (1 : ℚ) / 64 = 2 ^ (-6 : ℤ) := by norm_num
      _ ≤ 2 ^ e := zpow_le_zpow_right₀ (by norm_num) he
  have hdist := abs_le.mp (abs_hundredths_sub_le m e)
  have hfull : 2 ^ 52 ≤ m := h.full.resolve_left (by omega)
  rcases hfull.eq_or_lt with heq | hgt
  · -- Just below a power of two the unit is halved, but such a number is whole and has no rest.
    obtain ⟨k, hk⟩ := Int.eq_ofNat_of_zero_le (show 0 ≤ 52 + e by omega)
    have hwhole : (m : ℚ) * 2 ^ e = (2 ^ k : ℕ) := by
      rw [← heq, Nat.cast_pow, Nat.cast_pow, Nat.cast_ofNat, ← zpow_natCast, ← zpow_natCast,
        ← zpow_add₀ two_ne_zero_rat, ← hk]
      rfl
    have hexact : hundredths m e = 100 * 2 ^ k := by
      have hnear := hundredths_nearestEven m e
      rw [hwhole, show (100 : ℚ) * (2 ^ k : ℕ) = (100 * 2 ^ k : ℕ) by push_cast; rfl] at hnear
      exact nearestEven_natCast_iff.mp hnear
    have hvalue : (hundredths m e : ℚ) / 100 = m * 2 ^ e := by
      rw [hwhole, hexact]
      push_cast
      ring
    exact (hvalue ▸ hu).eq_of_value h
  · refine hu.eq_of_close h ⟨h.minExponent_le, ?_, Or.inr ?_⟩ ?_
    · have hm : (m : ℚ) + 1 ≤ 2 ^ 53 := by exact_mod_cast h.lt
      have hsplit : (2 : ℚ) ^ (e + 53) = 2 ^ 53 * 2 ^ e := by
        rw [add_comm, zpow_add₀ two_ne_zero_rat]
        rfl
      rw [hsplit]
      nlinarith [hdist.2]
    · have hm : (2 : ℚ) ^ 52 + 1 ≤ m := by exact_mod_cast hgt
      have hsplit : (2 : ℚ) ^ (e + 52) = 2 ^ 52 * 2 ^ e := by
        rw [add_comm, zpow_add₀ two_ne_zero_rat]
        rfl
      rw [hsplit]
      nlinarith [hdist.1]
    · rw [abs_lt]
      constructor <;> linarith [hdist.1, hdist.2]

/-- With a unit of at most `2 ^ (-7)` the double that is read back has the same hundredths. -/
theorem hundredths_of_roundsTo_small {u : UnpackedFloat} (h : Canonical m e) (he : e ≤ -7)
    (hpos : 0 < hundredths m e) (hu : RoundsTo (hundredths m e / 100) .positive u) :
    ∃ m' e', ∃ h' : Canonical m' e', u = .finite .positive m' e' h'.pos ∧
      hundredths m' e' = hundredths m e := by
  have hdist := abs_le.mp (abs_hundredths_sub_le m e)
  have hbelow : (hundredths m e : ℚ) / 100 < 2 ^ (46 : ℤ) := by
    have hm : (m : ℚ) + 1 ≤ 2 ^ 53 := by exact_mod_cast h.lt
    have hunit : (2 : ℚ) ^ e ≤ 2 ^ (-7 : ℤ) := zpow_le_zpow_right₀ (by norm_num) he
    have hunit0 : (0 : ℚ) < 2 ^ e := zpow_pos (by norm_num) e
    have hx : (m : ℚ) * 2 ^ e ≤ (2 ^ 53 - 1) * 2 ^ (-7 : ℤ) :=
      mul_le_mul (by linarith) hunit hunit0.le (by norm_num)
    norm_num at hx ⊢
    linarith [hdist.2]
  have habove : (1 : ℚ) / 100 ≤ (hundredths m e : ℚ) / 100 := by
    have : (1 : ℚ) ≤ hundredths m e := by exact_mod_cast hpos
    linarith
  have hlow : (2 : ℚ) ^ (-1022 : ℤ) ≤ (hundredths m e : ℚ) / 100 :=
    calc (2 : ℚ) ^ (-1022 : ℤ) ≤ 2 ^ (-7 : ℤ) := zpow_le_zpow_right₀ (by norm_num) (by norm_num)
      _ ≤ 1 / 100 := by norm_num
      _ ≤ _ := habove
  have hhigh : (hundredths m e : ℚ) / 100 < 2 ^ (1023 : ℤ) :=
    hbelow.trans_le (zpow_le_zpow_right₀ (by norm_num) (by norm_num))
  obtain ⟨m', e', h', rfl, r, t, ht, hr, hvalue⟩ := hu.canonical hlow hhigh
  refine ⟨m', e', h', rfl, hundredths_eq_of_nearestEven (nearestEven_of_abs_lt ?_)⟩
  have ht' : t ≤ -7 := ht.le_of_lt (by decide) hbelow
  have hunit : (2 : ℚ) ^ t ≤ 1 / 128 :=
    calc (2 : ℚ) ^ t ≤ 2 ^ (-7 : ℤ) := zpow_le_zpow_right₀ (by norm_num) ht'
      _ = 1 / 128 := by norm_num
  have hunit0 : (0 : ℚ) < 2 ^ t := zpow_pos (by norm_num) t
  have hscaled := hr.abs_sub_le
  rw [div_sub' hunit0.ne', abs_div, abs_of_pos hunit0, div_le_iff₀ hunit0, abs_le] at hscaled
  rw [hvalue, abs_lt]
  constructor <;> linarith [hscaled.1, hscaled.2]

/-- Every double is zero, canonical, infinite or no number. -/
theorem canonical_of_ofFloat {x : Float} {negative : Bool}
    (h : BinaryValue.ofFloat x = .finite negative m e) : m = 0 ∧ e = 0 ∨ Canonical m e := by
  rw [BinaryValue.ofFloat] at h
  split at h
  · cases h
  · cases h
  · cases h
    exact Or.inl ⟨rfl, rfl⟩
  next hunpack =>
    cases h
    exact Or.inr (Canonical.of_unpack hunpack)

theorem readFloat_hundredthsText (negative : Bool) (n : ℕ) :
    readFloat ((if negative then "-" else "") ++ hundredthsText n).toList =
      .ok (Numeral.toFloat ⟨negative, n, -2⟩) := by
  have hne : (hundredthsText n).toList ≠ [] := by
    rw [hundredthsText_toList]
    exact List.append_ne_nil_of_right_ne_nil _ (List.cons_ne_nil _ _)
  cases negative
  · rw [if_neg Bool.false_ne_true, String.empty_append, readFloat, if_neg hne,
      read?_hundredthsText]
  · have hlist : ("-" ++ hundredthsText n).toList = '-' :: (hundredthsText n).toList := by
      rw [String.toList_append]
      rfl
    rw [if_pos rfl, hlist, readFloat, if_neg (List.cons_ne_nil _ _), read?_minus_hundredthsText]

/-- The hundredths of a double are those of the double that they are read back as. -/
theorem twoPlaces_toFloat_hundredths (negative : Bool) (hx : m = 0 ∧ e = 0 ∨ Canonical m e) :
    twoPlaces (Numeral.toFloat ⟨negative, hundredths m e, -2⟩) =
      BinaryValue.twoPlaces (.finite negative m e) := by
  suffices h : ∃ m' e', BinaryValue.ofFloat (Numeral.toFloat ⟨negative, hundredths m e, -2⟩) =
      .finite negative m' e' ∧ hundredths m' e' = hundredths m e by
    obtain ⟨m', e', hvalue, hsame⟩ := h
    rw [twoPlaces, hvalue, BinaryValue.twoPlaces, BinaryValue.twoPlaces, hsame]
  rcases Nat.eq_zero_or_pos (hundredths m e) with hzero | hpos
  · rw [hzero]
    exact ⟨0, 0, ofFloat_toFloat_zero negative, rfl⟩
  rcases hx with ⟨rfl, rfl⟩ | h
  · exact absurd hpos (by decide)
  rcases Int.lt_or_le e (-6) with hsmall | hlarge
  · obtain ⟨u, hu, -⟩ := ofScientific_hundredths hpos
    obtain ⟨m', e', h', hu', hsame⟩ := hundredths_of_roundsTo_small h (by omega) hpos hu
    refine ⟨m', e', ofFloat_toFloat_hundredths negative hpos h' fun v hv => ?_, hsame⟩
    rw [hv.unique hu, hu']
  · exact ⟨m, e, ofFloat_toFloat_hundredths negative hpos h fun v hv =>
      roundsTo_hundredths_of_large h hlarge hv, rfl⟩

theorem exists_readFloat_twoPlaces (x : Float) :
    ∃ y, readFloat (twoPlaces x).toList = .ok y ∧ twoPlaces y = twoPlaces x := by
  rw [twoPlaces]
  cases h : BinaryValue.ofFloat x with
  | nan => exact ⟨0.0 / 0.0, rfl, rfl⟩
  | infinite negative =>
    cases negative
    · exact ⟨1.0 / 0.0, rfl, rfl⟩
    · exact ⟨-1.0 / 0.0, rfl, rfl⟩
  | finite negative m e =>
    exact ⟨_, readFloat_hundredthsText negative (hundredths m e),
      twoPlaces_toFloat_hundredths negative (canonical_of_ofFloat h)⟩

/-- The text of a quantity is always read back as a double. -/
theorem readFloat_twoPlaces (x : Float) : readFloat (twoPlaces x).toList = .ok (reread x) := by
  obtain ⟨y, hy, -⟩ := exists_readFloat_twoPlaces x
  rw [reread, hy]

/-- Writing what was read back gives the same text, for every double. -/
@[simp] theorem twoPlaces_reread (x : Float) : twoPlaces (reread x) = twoPlaces x := by
  obtain ⟨y, hy, htext⟩ := exists_readFloat_twoPlaces x
  rw [reread, hy, htext]

/-! ## Which texts are decimals -/

/-- Whether characters are digits, a point and two digits. -/
def isUnsignedDecimal (cs : List Char) : Bool :=
  match cs.dropWhile isDigit with
  | ['.', tens, ones] => cs.head?.any isDigit && isDigit tens && isDigit ones
  | _ => false

/-- Whether a text is a decimal with two places, a minus sign in front of it or not. -/
def isDecimal (text : String) : Bool :=
  match text.toList with
  | '-' :: rest => isUnsignedDecimal rest
  | cs => isUnsignedDecimal cs

theorem isUnsignedDecimal_hundredthsText (n : ℕ) :
    isUnsignedDecimal (hundredthsText n).toList = true := by
  obtain ⟨c, rest, hdigits⟩ := List.exists_cons_of_ne_nil (digits_ne_nil (n / 100))
  have hwhole : ∀ d ∈ c :: rest, isDigit d := fun d hd =>
    isDigit_of_mem_digits (n := n / 100) (hdigits ▸ hd)
  have hpoint : isDigit '.' = false := by decide
  have htens := isDigit_digitChar (Nat.mod_lt (n / 10) (by decide : 0 < 10))
  have hones := isDigit_digitChar (Nat.mod_lt n (by decide : 0 < 10))
  unfold isUnsignedDecimal
  rw [hundredthsText_toList, hdigits, List.dropWhile_append_of_pos hwhole, List.dropWhile_cons,
    hpoint, if_neg Bool.false_ne_true]
  simp [hwhole c List.mem_cons_self, htens, hones]

theorem isDecimal_hundredthsText (negative : Bool) (n : ℕ) :
    isDecimal ((if negative then "-" else "") ++ hundredthsText n) = true := by
  have hunsigned := isUnsignedDecimal_hundredthsText n
  unfold isDecimal
  rw [String.toList_append]
  cases negative
  · -- A text that starts with a digit has no sign.
    split
    next rest hminus =>
      have hmem : '-' ∈ (hundredthsText n).toList := by
        rw [show (hundredthsText n).toList = '-' :: rest from hminus]
        exact List.mem_cons_self
      rcases isDigit_or_dot_of_mem_hundredthsText hmem with h | h
      · exact absurd h (by decide)
      · exact absurd h (by decide)
    next => exact hunsigned
  · exact hunsigned

/-- The text of a double is a decimal exactly when the double is finite. -/
theorem isDecimal_twoPlaces (x : Float) : isDecimal (twoPlaces x) = x.isFinite := by
  show _ = x.toModel.unpack.isFinite
  unfold twoPlaces BinaryValue.ofFloat
  cases x.toModel.unpack with
  | notANumber => decide
  | infinity s => cases s <;> decide
  | zero s => exact isDecimal_hundredthsText _ _
  | finite s m e hm => exact isDecimal_hundredthsText _ _

end BenchTables.Decimal
