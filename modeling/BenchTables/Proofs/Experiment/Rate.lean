import BenchTables.Proofs.Experiment.Configuration
import BenchTables.Proofs.Experiment.Overflow

/-!
# The mean rate

A running sum of words comes to rest at `2 ^ 118`, where the next one no longer tells, so that a
sum of rates never overflows (`exists_hasValue_sumFrom`).  The mean rate of an experiment may be
far too small all the same, once its rows are too many to be counted.  As the mean bandwidth is
divided by the same number of rows, their quotient is finite exactly when the mean bandwidth is:
`Experiment.IsMeanOf.isFinite_perRequest`.  Of rows that a word can count the mean rate is zero
exactly when one of them has rate zero (`rate_beq_zero_iff`).
-/

namespace BenchTables

open Binary64

/-- A double in the range of the words other than zero. -/
def WordSized (x : Float) : Prop :=
  ∃ q, HasValue x q ∧ 1 ≤ q ∧ q ≤ 2 ^ 64

variable {x : Float} {xs : List Float} {own : List Measurement} {a : ℚ} {j : ℤ}

/-! ## Sums of words -/

/-- A sum that starts in range stays in range. -/
theorem exists_hasValue_sumFrom (hj : -1074 ≤ j) (hx : HasValue x a) (hle : 2 ^ j ≤ a)
    (ha : a ≤ 2 ^ 118) (hxs : ∀ y ∈ xs, WordSized y) :
    ∃ q, HasValue (sumFrom x xs) q ∧ 2 ^ j ≤ q ∧ q ≤ 2 ^ 118 := by
  -- Both bounds hold of the sum before each term, and a word preserves them.
  induction xs generalizing x a with
  | nil => exact ⟨a, hx, hle, ha⟩
  | cons first rest ih =>
    obtain ⟨⟨b, hfirst, -, hb⟩, hrest⟩ := List.forall_mem_cons.mp hxs
    have hgrown : 2 ^ j ≤ a + b := hle.trans (le_add_of_nonneg_right hfirst.pos.le)
    obtain ⟨q, hq, hqle, hqtop⟩ := hx.add_word ha hfirst hb hj hgrown
    exact ih hq hqle hqtop hrest

/-- The sum of words is not below one, and not below two if there is more than one of them. -/
theorem exists_hasValue_sum_words (hne : xs ≠ []) (hxs : ∀ y ∈ xs, WordSized y) :
    ∃ q, HasValue (sumFrom 0.0 xs) q ∧ 1 ≤ q ∧ (xs.length ≠ 1 → 2 ≤ q) ∧ q ≤ 2 ^ 118 := by
  match xs, hne with
  | first :: rest, _ =>
    obtain ⟨⟨a, hfirst, ha, hatop⟩, hrest⟩ := List.forall_mem_cons.mp hxs
    have hstart := hfirst.zero_add
    have hrange : a ≤ 2 ^ 118 := hatop.trans (by norm_num)
    match rest with
    | [] => exact ⟨a, hstart, ha, fun h => absurd rfl h, hrange⟩
    | second :: others =>
      obtain ⟨⟨b, hsecond, hb, hbtop⟩, hothers⟩ := List.forall_mem_cons.mp hrest
      have htwo : (2 : ℚ) ^ (1 : ℤ) ≤ a + b := by
        rw [zpow_one]
        linarith
      obtain ⟨c, hboth, hc, hctop⟩ := hstart.add_word hrange hsecond hbtop (by decide) htwo
      obtain ⟨q, hq, hqle, hqtop⟩ :=
        exists_hasValue_sumFrom (by decide) hboth hc hctop hothers
      rw [zpow_one] at hqle
      exact ⟨q, hq, by linarith, fun _ => hqle, hqtop⟩

/-! ## The mean rate of an experiment -/

theorem wordSized_toFloat {k : UInt64} (hk : k ≠ 0) : WordSized k.toFloat :=
  exists_hasValue_toFloat hk

theorem eq_zero_of_unpack {s : Float.Model.UnpackedFloat.Sign}
    (h : x.toModel.unpack = .zero s) : (x == 0.0) = true := by
  show Float.Model.UnpackedFloat.beq x.toModel.unpack (0.0 : Float).toModel.unpack = true
  rw [h, unpack_zero]
  rfl

theorem sumFrom_zeros (h : ∀ y ∈ xs, y = 0.0) : sumFrom 0.0 xs = 0.0 := by
  induction xs with
  | nil => rfl
  | cons first rest ih =>
    obtain ⟨rfl, hrest⟩ := List.forall_mem_cons.mp h
    exact ih hrest

theorem zero_div_ofNat {k : ℕ} (hk : 0 < k) : (0.0 : Float) / Float.ofNat k = 0.0 := by
  have hmodel : ((0.0 : Float) / Float.ofNat k).toModel = (0.0 : Float).toModel := by
    change Float.Model.pack (Float.Model.UnpackedFloat.div .binary64 (0.0 : Float).toModel.unpack
      (Float.ofNat k).toModel.unpack) = _
    rcases ofNat_cases hk with hinfinity | ⟨q, ⟨m, e, hcanonical, hcount, -⟩, -⟩
    · rw [hinfinity]
      rfl
    · rw [hcount]
      rfl
  exact congrArg Float.ofModel hmodel

/-- A sum of rates reaches the number of rows without the power of two in it. -/
theorem count_le_mul {n m : ℕ} {t : ℤ} (h : Canonical m t)
    (hcount : (Float.ofNat n).toModel.unpack = .finite .positive m t h.pos)
    (hcountone : (1 : ℚ) ≤ m * 2 ^ t) (hone : 1 ≤ a) (htwo : n ≠ 1 → 2 ≤ a) :
    m * 2 ^ t ≤ a * 2 ^ (t + 52) := by
  by_cases hrow : n = 1
  · -- A single row counts as one, which leaves no power of two to lose.
    subst hrow
    have hvalue : (m : ℚ) * 2 ^ t = 1 :=
      HasValue.unique ⟨m, t, h, hcount, rfl⟩ hasValue_ofNat_one
    have hlow := (full_of_one_le h hcountone).2
    rw [hvalue]
    exact one_le_mul_of_one_le_of_one_le hone (one_le_zpow₀ (by norm_num) (by omega))
  · have hbelow : (m : ℚ) ≤ 2 * 2 ^ 52 := by
      exact_mod_cast h.lt.le
    calc (m : ℚ) * 2 ^ t
      _ ≤ 2 * 2 ^ 52 * 2 ^ t := mul_le_mul_of_nonneg_right hbelow (two_pow_pos t).le
      _ = 2 * 2 ^ (t + 52) := by
          rw [zpow_add₀ two_ne_zero_rat, mul_assoc, mul_comm (2 ^ 52)]
          rfl
      _ ≤ a * 2 ^ (t + 52) := mul_le_mul_of_nonneg_right (htwo hrow) (two_pow_pos _).le

namespace Experiment.IsMeanOf

variable {e : Experiment}

/-- The mean of rates of zero is the positive zero. -/
theorem rate_eq_zero (h : e.IsMeanOf own) (hown : ∀ m ∈ own, m.rate = 0) : e.rate = 0.0 := by
  have hzeros : ∀ y ∈ own.map fun m => m.rate.toFloat, y = 0.0 :=
    List.forall_mem_map.mpr fun m hm => by rw [hown m hm]; rfl
  rw [h.rate, sumFrom_zeros hzeros]
  exact zero_div_ofNat (List.length_pos_iff.mpr h.ne_nil)

theorem wordSized_rate (h : e.IsMeanOf own) (hsame : ∀ m ∈ own, ∀ m' ∈ own, m.rate = m'.rate)
    (hrate : (e.rate == 0.0) = false) : ∀ m ∈ own, WordSized m.rate.toFloat := by
  intro m hm
  apply wordSized_toFloat
  intro hzero
  rw [h.rate_eq_zero fun m' hm' => (hsame m' hm' m hm).trans hzero] at hrate
  exact absurd hrate (by decide)

/-- The mean of rates other than zero is a positive number. -/
theorem exists_hasValue_rate (h : e.IsMeanOf own) (hown : ∀ m ∈ own, m.rate ≠ 0)
    (hlength : own.length < 2 ^ 64) : ∃ q, HasValue e.rate q := by
  obtain ⟨a, hsum, hone, htwo, htop⟩ := exists_hasValue_sum_words
    (List.map_eq_nil_iff.not.mpr h.ne_nil)
    (List.forall_mem_map.mpr fun m hm => wordSized_toFloat (hown m hm))
  obtain ⟨q, ⟨m, t, hcanonical, hcount, rfl⟩, hcountone⟩ :=
    exists_hasValue_ofNat (List.length_pos_iff.mpr h.ne_nil) hlength
  rw [List.length_map] at htwo
  obtain ⟨r, hmean, -⟩ := hsum.div_count htop hcanonical hcountone hcount
    (count_le_mul hcanonical hcount hcountone hone htwo)
  exact ⟨r, h.rate ▸ hmean⟩

/-- Unless the mean rate is zero, bandwidth per request is finite when the bandwidth is. -/
theorem isFinite_perRequest (h : e.IsMeanOf own)
    (hsame : ∀ m ∈ own, ∀ m' ∈ own, m.rate = m'.rate) (hrate : (e.rate == 0.0) = false) :
    (e.bandwidthTotal / e.rate).isFinite ↔ e.bandwidthTotal.isFinite := by
  refine ⟨isFinite_of_div, fun hfinite => ?_⟩
  have hpos : 0 < own.length := List.length_pos_iff.mpr h.ne_nil
  obtain ⟨a, hsum, hone, htwo, htop⟩ := exists_hasValue_sum_words
    (List.map_eq_nil_iff.not.mpr h.ne_nil)
    (List.forall_mem_map.mpr (h.wordSized_rate hsame hrate))
  rw [h.bandwidthTotal, isFinite_div_ofNat _ hpos] at hfinite
  rw [h.rate] at hrate
  rw [h.bandwidthTotal, h.rate]
  rcases ofNat_cases hpos with hinfinity | ⟨q, ⟨m, t, hcanonical, hcount, rfl⟩, hcountone⟩
  · -- With more rows than doubles can count the mean rate is zero.
    obtain ⟨s, hzero⟩ := isFinite_div_infinity hsum.isFinite hinfinity
    rw [eq_zero_of_unpack hzero] at hrate
    cases hrate
  · refine isFinite_div_div hfinite hsum htop hcanonical hcountone hcount ?_
    rw [List.length_map] at htwo
    exact count_le_mul hcanonical hcount hcountone hone htwo

end Experiment.IsMeanOf

/-- An experiment has a mean rate of zero when a row of it has rate zero, which then all have. -/
theorem rate_eq_zero_of_mem {rows : List Measurement} {e : Experiment} {m : Measurement}
    (he : e ∈ experiments rows) (hm : m ∈ ownRows e.id rows) (hrate : m.rate = 0) :
    e.rate = 0.0 := by
  apply (isMeanOf_of_mem_experiments he).rate_eq_zero
  intro m' hm'
  exact (rate_eq_of_mem_ownRows m' hm' m hm).trans hrate

theorem rate_beq_zero_iff {rows : List Measurement} {e : Experiment} (he : e ∈ experiments rows)
    (hlength : rows.length < 2 ^ 64) :
    (e.rate == 0.0) = true ↔ ∃ m ∈ ownRows e.id rows, m.rate = 0 := by
  constructor
  · intro hrate
    by_contra hnone
    push Not at hnone
    have hown : (ownRows e.id rows).length < 2 ^ 64 := (List.length_filter_le _ _).trans_lt hlength
    obtain ⟨q, hq⟩ := (isMeanOf_of_mem_experiments he).exists_hasValue_rate hnone hown
    rw [hq.ne_zero] at hrate
    cases hrate
  · rintro ⟨m, hm, hzero⟩
    rw [rate_eq_zero_of_mem he hm hzero]
    decide

end BenchTables
