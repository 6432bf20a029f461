import BenchTables.Proofs.Binary64.Units
import BenchTables.Proofs.Experiment.Rate
import Mathlib.Algebra.BigOperators.Ring.Finset
import Mathlib.Algebra.Order.BigOperators.Group.List

/-!
# Means of whole numbers

Whole numbers of bytes, entries and requests are summed without rounding as long as the sums stay
below `2 ^ 53`: the terms of a row, their division by a power of two, and the running sum of the
rows are all whole numbers of one unit (`hasUnits_sumFrom`).  So the mean of a figure is rounded
once, where the sum is divided by the number of rows, and no order of the rows is left in it:
`integer_means`.
-/

namespace BenchTables

open Binary64

/-! ## Sums -/

section Sums

variable {α : Type} {l l' : List α} {f : α → Float} {g : α → ℕ} {j : ℤ} {x : Float} {a : ℕ}

/-- A running sum of units is one, as long as it stays in range. -/
theorem hasUnits_sumFrom (hx : HasUnits j x a) (hl : ∀ i ∈ l, HasUnits j (f i) (g i))
    (hle : a + (l.map g).sum ≤ 2 ^ 53) (hmin : -1022 ≤ j) (hmax : j ≤ 900) :
    HasUnits j (sumFrom x (l.map f)) (a + (l.map g).sum) ∧
      (signOf? x.toModel.unpack = some .positive →
        signOf? (sumFrom x (l.map f)).toModel.unpack = some .positive) := by
  induction l generalizing x a with
  | nil => exact ⟨hx, id⟩
  | cons first rest ih =>
    obtain ⟨hfirst, hrest⟩ := List.forall_mem_cons.mp hl
    rw [List.map_cons (f := g), List.sum_cons, ← Nat.add_assoc] at hle ⊢
    obtain ⟨hsum, hsign⟩ := hx.add hfirst (by omega) hmin hmax
    obtain ⟨hall, hsign'⟩ := ih hsum hrest hle
    exact ⟨hall, fun h => hsign' (hsign h)⟩

/-- A running sum of units that starts from the positive zero. -/
theorem hasUnits_sumFrom_zero (hl : ∀ i ∈ l, HasUnits j (f i) (g i))
    (hle : (l.map g).sum ≤ 2 ^ 53) (hmin : -1022 ≤ j) (hmax : j ≤ 900) :
    HasUnits j (sumFrom 0.0 (l.map f)) (l.map g).sum ∧
      signOf? (sumFrom 0.0 (l.map f)).toModel.unpack = some .positive := by
  have hzero : HasUnits j 0.0 0 := .zero unpack_zero
  obtain ⟨hsum, hsign⟩ := hasUnits_sumFrom hzero hl (by rwa [Nat.zero_add]) hmin hmax
  rw [Nat.zero_add] at hsum
  exact ⟨hsum, hsign rfl⟩

theorem isNearest_mean (hne : l ≠ []) (hl : ∀ i ∈ l, HasUnits j (f i) (g i))
    (hle : (l.map g).sum ≤ 2 ^ 53) (hmin : -1022 ≤ j) (hmax : j ≤ 900)
    (hcount : (l.map g).sum ≠ 0 → l.length ≤ 2 ^ 53) :
    IsNearest ((l.map g).sum * 2 ^ j / l.length)
      (sumFrom 0.0 (l.map f) / Float.ofNat l.length) := by
  obtain ⟨hsum, hsign⟩ := hasUnits_sumFrom_zero hl hle hmin hmax
  exact hsum.isNearest_div hsign (List.length_pos_iff.mpr hne) hcount

/-- The mean does not depend on the order. -/
theorem mean_eq_of_perm (hperm : l'.Perm l) (hl : ∀ i ∈ l, HasUnits j (f i) (g i))
    (hle : (l.map g).sum ≤ 2 ^ 53) (hmin : -1022 ≤ j) (hmax : j ≤ 900) :
    sumFrom 0.0 (l'.map f) / Float.ofNat l'.length =
      sumFrom 0.0 (l.map f) / Float.ofNat l.length := by
  have hsame : (l'.map g).sum = (l.map g).sum := (hperm.map g).sum_eq
  obtain ⟨hsum, hsign⟩ := hasUnits_sumFrom_zero hl hle hmin hmax
  obtain ⟨hsum', hsign'⟩ := hasUnits_sumFrom_zero (l := l')
    (fun i hi => hl i (hperm.mem_iff.mp hi)) (hsame ▸ hle) hmin hmax
  rw [hsame] at hsum'
  rw [hperm.length_eq]
  exact div_congr (hsum'.unpack_eq hsum hsign' hsign) _

end Sums

/-! ## Bytes -/

namespace Measurement

variable {m : Measurement}

/-- All counters are whole numbers of bytes. -/
def HasWholeBytes (m : Measurement) : Prop :=
  ∀ c, (m.counter c).isFinite ∧ ∃ k : ℕ, numberOf (m.counter c) = k

/-- The bytes of all terms of the total bandwidth. -/
def bytes (m : Measurement) : ℚ :=
  (Counter.totalTerms.map fun c => numberOf (m.counter c)).sum

def wholeBytes (m : Measurement) : ℕ :=
  (Counter.totalTerms.map fun c => ⌊numberOf (m.counter c)⌋₊).sum

theorem HasWholeBytes.floor_value (h : m.HasWholeBytes) (c : Counter) :
    (⌊numberOf (m.counter c)⌋₊ : ℚ) = numberOf (m.counter c) := by
  obtain ⟨-, k, hk⟩ := h c
  rw [hk, Nat.floor_natCast]

theorem HasWholeBytes.cast_wholeBytes (h : m.HasWholeBytes) : (m.wholeBytes : ℚ) = m.bytes := by
  rw [wholeBytes, Nat.cast_list_sum, List.map_map, bytes]
  exact congrArg List.sum (List.map_congr_left fun c _ => h.floor_value c)

/-- The total in kibibytes is exact: a row is added up from the negative zero, and divided by a
power of two. -/
theorem HasWholeBytes.hasUnits_bandwidthTotal (h : m.HasWholeBytes) (hle : m.wholeBytes ≤ 2 ^ 53) :
    HasUnits (-10) m.bandwidthTotal m.wholeBytes := by
  have hzero : HasUnits 0 (-0.0) 0 := .zero (s := .negative) rfl
  have hterms : ∀ c ∈ Counter.totalTerms, HasUnits 0 (m.counter c) ⌊numberOf (m.counter c)⌋₊ := by
    intro c _
    apply HasUnits.of_value (h c).1
    rw [zpow_zero, mul_one, h.floor_value]
  obtain ⟨hsum, -⟩ := hasUnits_sumFrom hzero hterms (by rwa [Nat.zero_add]) (by decide) (by decide)
  rw [Nat.zero_add] at hsum
  exact hsum.div_kibibyte hle (by decide) (by decide)

end Measurement

/-! ## Experiments -/

/-- The figures of rows are whole numbers with sums that a double can hold. -/
structure SumExactly (own : List Measurement) : Prop where
  counters : ∀ m ∈ own, m.HasWholeBytes
  sizes : (own.map fun m => m.dbSize.toNat).sum < 2 ^ 53
  rates : (own.map fun m => m.rate.toNat).sum < 2 ^ 53
  bytes : (own.map Measurement.bytes).sum < 2 ^ 53

/-- The means of rows, each rounded once.  No sum bounds the number of rows with sizes and rates that
are all zero, and a double counts no more than `2 ^ 53` of them. -/
structure Experiment.IsExactMeanOf (e : Experiment) (own : List Measurement) : Prop where
  dbSize : IsNearest (((own.map fun m => m.dbSize.toNat).sum : ℕ) / own.length) e.dbSize
  bandwidthTotal : own.length ≤ 2 ^ 53 ∨ (∃ m ∈ own, m.dbSize ≠ 0 ∨ m.rate ≠ 0) →
    IsNearest ((own.map Measurement.bytes).sum / (1024 * own.length)) e.bandwidthTotal
  rate : ∀ m ∈ own, e.rate = m.rate.toFloat ∧ numberOf e.rate = m.rate.toNat
  rateRequests : ∀ m ∈ own, e.rateRequests = m.rate

variable {rows rows' own : List Measurement} {id : String} {e : Experiment} {m : Measurement}

/-! ### Rows -/

/-- Rows with a size other than zero are not more than their sizes add up to. -/
theorem length_le_sum_sizes (hm : m ∈ ownRows id rows) (hsize : m.dbSize ≠ 0) :
    (ownRows id rows).length ≤ ((ownRows id rows).map fun m => m.dbSize.toNat).sum := by
  have hone : ∀ k ∈ (ownRows id rows).map fun m => m.dbSize.toNat, 1 ≤ k := by
    refine List.forall_mem_map.mpr fun other hother => toNat_pos fun hzero => hsize ?_
    exact (dbSize_eq_zero_iff_of_mem_ownRows hm hother).mpr hzero
  have hlength := List.length_le_sum_of_one_le _ hone
  rwa [List.length_map] at hlength

theorem sum_rates (hm : m ∈ ownRows id rows) :
    ((ownRows id rows).map fun m => m.rate.toNat).sum =
      (ownRows id rows).length * m.rate.toNat := by
  have hsame : ((ownRows id rows).map fun m => m.rate.toNat) =
      (ownRows id rows).map fun _ => m.rate.toNat :=
    List.map_congr_left fun other hother => by
      rw [rate_eq_of_mem_ownRows other hother m hm]
  rw [hsame, List.map_const', List.sum_replicate_nat]

/-- Rows with a rate other than zero are not more than their rates add up to. -/
theorem length_le_sum_rates (hm : m ∈ ownRows id rows) (hrate : m.rate ≠ 0) :
    (ownRows id rows).length ≤ ((ownRows id rows).map fun m => m.rate.toNat).sum := by
  rw [sum_rates hm]
  exact Nat.le_mul_of_pos_right _ (toNat_pos hrate)

namespace SumExactly

theorem cast_sum_wholeBytes (h : SumExactly own) :
    (((own.map Measurement.wholeBytes).sum : ℕ) : ℚ) = (own.map Measurement.bytes).sum := by
  rw [Nat.cast_list_sum, List.map_map]
  exact congrArg List.sum (List.map_congr_left fun m hm => (h.counters m hm).cast_wholeBytes)

theorem sum_wholeBytes_le (h : SumExactly own) :
    (own.map Measurement.wholeBytes).sum ≤ 2 ^ 53 := by
  have hlt := h.bytes
  rw [← h.cast_sum_wholeBytes] at hlt
  exact_mod_cast hlt.le

theorem hasUnits_bandwidthTotal (h : SumExactly own) :
    ∀ m ∈ own, HasUnits (-10) m.bandwidthTotal m.wholeBytes := by
  intro m hm
  apply (h.counters m hm).hasUnits_bandwidthTotal
  exact (List.le_sum_of_mem (List.mem_map_of_mem hm)).trans h.sum_wholeBytes_le

theorem hasUnits_dbSize (h : SumExactly own) :
    ∀ m ∈ own, HasUnits 0 m.dbSize.toFloat m.dbSize.toNat := by
  intro m hm
  apply hasUnits_toFloat
  exact (List.le_sum_of_mem (List.mem_map_of_mem (f := fun m => m.dbSize.toNat) hm)).trans
    h.sizes.le

theorem rate_le (h : SumExactly own) (hm : m ∈ own) : m.rate.toNat ≤ 2 ^ 53 :=
  (List.le_sum_of_mem (List.mem_map_of_mem (f := fun m => m.rate.toNat) hm)).trans h.rates.le

theorem hasUnits_rate (h : SumExactly own) :
    ∀ m ∈ own, HasUnits 0 m.rate.toFloat m.rate.toNat :=
  fun _ hm => hasUnits_toFloat (h.rate_le hm)

/-- Rows are no more than doubles can count, unless all of their sizes and rates are zero. -/
theorem length_le (h : SumExactly (ownRows id rows)) (hm : m ∈ ownRows id rows)
    (hne : m.dbSize ≠ 0 ∨ m.rate ≠ 0) : (ownRows id rows).length ≤ 2 ^ 53 := by
  rcases hne with hsize | hrate
  · exact (length_le_sum_sizes hm hsize).trans h.sizes.le
  · exact (length_le_sum_rates hm hrate).trans h.rates.le

end SumExactly

/-! ### Means -/

/-- The mean of one rate is that rate. -/
theorem Experiment.IsMeanOf.rate_eq_toFloat (h : e.IsMeanOf (ownRows id rows))
    (hexact : SumExactly (ownRows id rows)) (hm : m ∈ ownRows id rows) :
    e.rate = m.rate.toFloat := by
  by_cases hzero : m.rate = 0
  · have hall : ∀ other ∈ ownRows id rows, other.rate = 0 := fun other hother =>
      (rate_eq_of_mem_ownRows other hother m hm).trans hzero
    rw [h.rate_eq_zero hall, hzero]
    rfl
  · have hlength := hexact.length_le hm (Or.inr hzero)
    have hpos : 0 < (ownRows id rows).length := List.length_pos_of_mem hm
    obtain ⟨hsum, -⟩ := hasUnits_sumFrom_zero hexact.hasUnits_rate hexact.rates.le (by decide)
      (by decide)
    rw [sum_rates hm] at hsum
    have hu := (hsum.hasValue (Nat.mul_pos hpos (toNat_pos hzero)).ne').div
      (hasValue_ofNat hpos hlength)
    have hmean : (((ownRows id rows).length * m.rate.toNat : ℕ) : ℚ) * 2 ^ (0 : ℤ) /
        (ownRows id rows).length = m.rate.toNat := by
      have hcount : ((ownRows id rows).length : ℚ) ≠ 0 := by exact_mod_cast hpos.ne'
      rw [zpow_zero, mul_one, Nat.cast_mul, mul_div_cancel_left₀ _ hcount]
    rw [hmean] at hu
    have hmodel : e.rate.toModel = m.rate.toFloat.toModel := by
      rw [h.rate]
      exact congrArg Float.Model.pack (hu.unique (ofNat_roundsTo (toNat_pos hzero)))
    exact congrArg Float.ofModel hmodel

theorem Experiment.IsMeanOf.isExactMeanOf (h : e.IsMeanOf (ownRows id rows))
    (hexact : SumExactly (ownRows id rows)) : e.IsExactMeanOf (ownRows id rows) where
  dbSize := by
    have hmean := isNearest_mean h.ne_nil hexact.hasUnits_dbSize hexact.sizes.le (by decide)
      (by decide) fun hsum => by
        obtain ⟨size, hsize, hne⟩ := List.exists_mem_ne_zero_of_sum_ne_zero hsum
        obtain ⟨m, hm, rfl⟩ := List.mem_map.mp hsize
        exact hexact.length_le hm (Or.inl fun hzero => hne (by rw [hzero]; rfl))
    rw [h.dbSize]
    rwa [zpow_zero, mul_one] at hmean
  bandwidthTotal hcount := by
    have hlength : (ownRows id rows).length ≤ 2 ^ 53 := by
      rcases hcount with hlength | ⟨m, hm, hne⟩
      · exact hlength
      · exact hexact.length_le hm hne
    have hmean := isNearest_mean h.ne_nil hexact.hasUnits_bandwidthTotal hexact.sum_wholeBytes_le
      (by decide) (by decide) fun _ => hlength
    have hunits : (((ownRows id rows).map Measurement.bytes).sum : ℚ) * 2 ^ (-10 : ℤ) /
        (ownRows id rows).length =
          ((ownRows id rows).map Measurement.bytes).sum / (1024 * (ownRows id rows).length) := by
      rw [zpow_neg, ← div_eq_mul_inv, div_div]
      norm_num
    rw [h.bandwidthTotal]
    rwa [hexact.cast_sum_wholeBytes, hunits] at hmean
  rate m hm := by
    rw [h.rate_eq_toFloat hexact hm, (hexact.hasUnits_rate m hm).numberOf_eq, zpow_zero, mul_one]
    exact ⟨rfl, rfl⟩
  rateRequests m hm := by
    rw [Experiment.rateRequests, h.rate_eq_toFloat hexact hm,
      nearestUInt64_toFloat (hexact.rate_le hm)]

/-- The means of whole numbers do not depend on the order of rows. -/
theorem Experiment.IsMeanOf.eq_of_perm {e' : Experiment} {own' : List Measurement}
    (h : e.IsMeanOf own) (h' : e'.IsMeanOf own') (hperm : own'.Perm own) (hexact : SumExactly own) :
    e'.dbSize = e.dbSize ∧ e'.bandwidthTotal = e.bandwidthTotal ∧ e'.rate = e.rate := by
  rw [h.dbSize, h.bandwidthTotal, h.rate, h'.dbSize, h'.bandwidthTotal, h'.rate]
  refine ⟨?_, ?_, ?_⟩
  · exact mean_eq_of_perm hperm hexact.hasUnits_dbSize hexact.sizes.le (by decide) (by decide)
  · exact mean_eq_of_perm hperm hexact.hasUnits_bandwidthTotal hexact.sum_wholeBytes_le (by decide)
      (by decide)
  · exact mean_eq_of_perm hperm hexact.hasUnits_rate hexact.rates.le (by decide) (by decide)

/-- Where the figures of the rows of an experiment are whole numbers with sums that a double can
hold, its means are rounded once, its rate not at all, and they are the same in every order of
the rows. -/
theorem integer_means (he : e ∈ experiments rows) (hexact : SumExactly (ownRows e.id rows)) :
    e.IsExactMeanOf (ownRows e.id rows) ∧
    ∀ rows', rows'.Perm rows →
      (∃ e' ∈ experiments rows', e'.id = e.id) ∧
      ∀ e' ∈ experiments rows', e'.id = e.id → e'.dbSize = e.dbSize ∧
        e'.bandwidthTotal = e.bandwidthTotal ∧ e'.rate = e.rate ∧
        e'.rateRequests = e.rateRequests := by
  have hmean := isMeanOf_of_mem_experiments he
  refine ⟨hmean.isExactMeanOf hexact, fun rows' hperm => ⟨?_, fun e' he' hid => ?_⟩⟩
  · obtain ⟨m, hm, hid⟩ := exists_row_of_mem_experiments he
    exact exists_experiment_iff.mpr ⟨m, hperm.mem_iff.mpr hm, hid⟩
  · have hown : (ownRows e'.id rows').Perm (ownRows e.id rows) := hid ▸ hperm.filter _
    obtain ⟨hsize, hbandwidth, hrate⟩ :=
      hmean.eq_of_perm (isMeanOf_of_mem_experiments he') hown hexact
    exact ⟨hsize, hbandwidth, hrate, by rw [Experiment.rateRequests, hrate]; rfl⟩

/-- A measurement of which each counter has the same whole number of bytes. -/
def wholeMeasurement (rate k : UInt64) : Measurement :=
  ⟨1024, 32, 64, false, rate, false, 1, Vector.replicate 12 k.toFloat, Vector.replicate 6 2500.0⟩

theorem counter_wholeMeasurement (rate k : UInt64) (c : Counter) :
    (wholeMeasurement rate k).counter c = k.toFloat := by
  simp [Measurement.counter, PerCounter.value, wholeMeasurement]

theorem hasWholeBytes_wholeMeasurement {k : UInt64} (rate : UInt64) (hle : k.toNat ≤ 2 ^ 53) :
    (wholeMeasurement rate k).HasWholeBytes := by
  intro c
  have hunits := hasUnits_toFloat hle
  rw [counter_wholeMeasurement]
  exact ⟨hunits.isFinite, k.toNat, by rw [hunits.numberOf_eq, zpow_zero, mul_one]⟩

theorem bytes_wholeMeasurement {k : UInt64} (rate : UInt64) (hle : k.toNat ≤ 2 ^ 53) :
    (wholeMeasurement rate k).bytes = 13 * k.toNat := by
  have hvalue : numberOf k.toFloat = k.toNat := by
    rw [(hasUnits_toFloat hle).numberOf_eq, zpow_zero, mul_one]
  have hcount : Counter.totalTerms.length = 13 := rfl
  simp only [Measurement.bytes, counter_wholeMeasurement, hvalue, List.map_const',
    List.sum_replicate, hcount, nsmul_eq_mul, Nat.cast_ofNat]

/-- Two repetitions of one experiment, and between them a row of another. -/
def wholeRows : List Measurement :=
  [wholeMeasurement 3 5, wholeMeasurement 4 9, wholeMeasurement 3 8]

theorem integer_means_wholeRows :
    ∃ e ∈ experiments wholeRows, SumExactly (ownRows e.id wholeRows) ∧
      e.IsExactMeanOf (ownRows e.id wholeRows) ∧ e.rateRequests = 3 := by
  obtain ⟨e, he, hid⟩ := exists_experiment_iff.mpr
    ⟨wholeMeasurement 3 5, show _ ∈ wholeRows from List.mem_cons_self, rfl⟩
  have hown : ownRows e.id wholeRows = [wholeMeasurement 3 5, wholeMeasurement 3 8] := by
    rw [hid]
    decide +kernel
  have hexact : SumExactly (ownRows e.id wholeRows) := by
    rw [hown]
    refine ⟨?_, by decide, by decide, ?_⟩
    · intro m hm
      rcases List.mem_pair.mp hm with rfl | rfl
      · exact hasWholeBytes_wholeMeasurement 3 (by decide)
      · exact hasWholeBytes_wholeMeasurement 3 (by decide)
    · have hcounters : UInt64.toNat 5 = 5 ∧ UInt64.toNat 8 = 8 := ⟨rfl, rfl⟩
      rw [List.map_cons, List.map_cons, bytes_wholeMeasurement 3 (by decide),
        bytes_wholeMeasurement 3 (by decide), hcounters.1, hcounters.2]
      norm_num
  have hmeans := (integer_means he hexact).1
  refine ⟨e, he, hexact, hmeans, ?_⟩
  exact hmeans.rateRequests (wholeMeasurement 3 5) (hown ▸ List.mem_cons_self)

end BenchTables
