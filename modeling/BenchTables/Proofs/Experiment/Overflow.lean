import BenchTables.Proofs.Binary64.Positive
import BenchTables.Proofs.Experiment.Grouping
import BenchTables.Proofs.Measurement.Reader

/-!
# Sums that overflow

A sum of finite doubles is finite exactly when no step of it leaves the finite doubles
(`isFinite_sumFrom_iff`).  So a figure of an experiment, the mean of what its rows add, is finite
exactly when neither the totals of its rows nor their running sum overflow.
-/

namespace BenchTables

open Binary64

/-- A sum from left to right leaves the finite doubles: it is finite up to a term that is finite,
too, and no longer finite with it. -/
def Overflows (start : Float) (xs : List Float) : Prop :=
  ∃ before x after, xs = before ++ x :: after ∧ (sumFrom start before).isFinite ∧ x.isFinite ∧
    (sumFrom start before + x).isFinite = false

variable {start x : Float} {xs : List Float} {own : List Measurement} {m : Measurement}

/-! ## Sums -/

theorem sumFrom_append (start : Float) (xs ys : List Float) :
    sumFrom start (xs ++ ys) = sumFrom (sumFrom start xs) ys :=
  List.foldl_append

/-- A sum that is finite in the end was finite all along. -/
theorem isFinite_of_sumFrom (h : (sumFrom start xs).isFinite) :
    start.isFinite ∧ ∀ x ∈ xs, x.isFinite := by
  induction xs generalizing start with
  | nil => exact ⟨h, fun _ hx => by cases hx⟩
  | cons first rest ih =>
    obtain ⟨hsum, hrest⟩ := ih h
    obtain ⟨hstart, hfirst⟩ := isFinite_of_add hsum
    exact ⟨hstart, List.forall_mem_cons.mpr ⟨hfirst, hrest⟩⟩

theorem Overflows.cons (h : Overflows (start + x) xs) : Overflows start (x :: xs) := by
  obtain ⟨before, y, after, rfl, hbefore, hy, hsum⟩ := h
  exact ⟨x :: before, y, after, rfl, hbefore, hy, hsum⟩

/-- A sum is finite exactly when its terms are and no step overflows. -/
theorem isFinite_sumFrom_iff (hstart : start.isFinite) :
    (sumFrom start xs).isFinite ↔ (∀ x ∈ xs, x.isFinite) ∧ ¬Overflows start xs := by
  constructor
  · intro h
    refine ⟨(isFinite_of_sumFrom h).2, ?_⟩
    rintro ⟨before, x, after, rfl, -, -, hsum⟩
    rw [sumFrom_append] at h
    change (sumFrom (sumFrom start before + x) after).isFinite at h
    have hafter := (isFinite_of_sumFrom h).1
    rw [hsum] at hafter
    cases hafter
  · rintro ⟨hterms, hnot⟩
    induction xs generalizing start with
    | nil => exact hstart
    | cons first rest ih =>
      obtain ⟨hfirst, hrest⟩ := List.forall_mem_cons.mp hterms
      have hsum : (start + first).isFinite := by
        -- Otherwise the sum overflows at once.
        by_contra hover
        exact hnot ⟨[], first, rest, rfl, hstart, hfirst, Bool.eq_false_iff.mpr hover⟩
      exact ih hsum hrest fun hover => hnot hover.cons

/-! ## Divisors -/

theorem isFinite_div_kibibyte (x : Float) : (x / 1024.0).isFinite ↔ x.isFinite := by
  have hunpack : (1024.0 : Float).toModel.unpack = .finite .positive (2 ^ 52) (-42) (by decide) :=
    rfl
  exact ⟨isFinite_of_div, fun h => isFinite_div_of_one_le h hunpack (by norm_num)⟩

theorem isFinite_div_second (x : Float) : (x / 1000000.0).isFinite ↔ x.isFinite := by
  have hunpack : (1000000.0 : Float).toModel.unpack =
      .finite .positive (1000000 * 2 ^ 33) (-33) (by decide) := rfl
  exact ⟨isFinite_of_div, fun h => isFinite_div_of_one_le h hunpack (by norm_num)⟩

/-- Dividing by the number of terms neither makes a sum finite nor takes it out of the doubles. -/
theorem isFinite_div_ofNat (x : Float) {n : ℕ} (hpos : 0 < n) :
    (x / Float.ofNat n).isFinite ↔ x.isFinite := by
  refine ⟨isFinite_of_div, fun h => ?_⟩
  rcases ofNat_cases hpos with hinfinity | ⟨q, ⟨m, e, hcanonical, hunpack, rfl⟩, hone⟩
  · obtain ⟨s, hzero⟩ := isFinite_div_infinity h hinfinity
    rw [isFinite_iff, hzero]
    rfl
  · exact isFinite_div_of_one_le h hunpack hone

/-! ## The figures of measurements -/

/-- Every entry is that of a phase. -/
theorem exists_phase_of_mem {v : PerPhase Float} (h : x ∈ v.toList) :
    ∃ p, PerPhase.value v p = x := by
  obtain ⟨i, hi, rfl⟩ := Vector.mem_iff_getElem.mp (Vector.mem_toList_iff.mp h)
  exact ⟨Phase.ordered[i], PerPhase.value_ordered v ⟨i, hi⟩⟩

theorem isFinite_sum_iff (h : ∀ x ∈ xs, x.isFinite) :
    (sum xs).isFinite ↔ ¬Overflows (-0.0) xs := by
  have hzero : (-0.0 : Float).isFinite := rfl
  unfold sum
  rw [isFinite_sumFrom_iff hzero]
  exact and_iff_right h

theorem isFinite_bandwidthTotal_iff (h : m.IsFinite) :
    m.bandwidthTotal.isFinite ↔ ¬Overflows (-0.0) (Counter.totalTerms.map m.counter) := by
  unfold Measurement.bandwidthTotal
  rw [isFinite_div_kibibyte]
  exact isFinite_sum_iff (List.forall_mem_map.mpr fun c _ => h.counter c)

theorem isFinite_latencySeconds (h : m.IsFinite) (p : Phase) :
    (PerPhase.value m.latencySeconds p).isFinite := by
  unfold Measurement.latencySeconds
  rw [Tally.value_map, isFinite_div_second]
  exact h.phase p

theorem isFinite_latencyTotal_iff (h : m.IsFinite) :
    m.latencyTotal.isFinite ↔ ¬Overflows (-0.0) m.latency.toList := by
  unfold Measurement.latencyTotal
  rw [isFinite_div_second]
  refine isFinite_sum_iff fun x hx => ?_
  obtain ⟨p, rfl⟩ := exists_phase_of_mem hx
  exact h.phase p

/-! ## The figures of experiments -/

/-- The bandwidth of rows overflows: the total of one of them does, or their running sum. -/
def BandwidthOverflows (own : List Measurement) : Prop :=
  (∃ m ∈ own, Overflows (-0.0) (Counter.totalTerms.map m.counter)) ∨
    Overflows 0.0 (own.map Measurement.bandwidthTotal)

/-- The running sum of the times of a phase overflows. -/
def PhaseOverflows (p : Phase) (own : List Measurement) : Prop :=
  Overflows 0.0 (own.map fun m => PerPhase.value m.latencySeconds p)

/-- The time of all phases overflows: the total of a row does, or their running sum. -/
def LatencyOverflows (own : List Measurement) : Prop :=
  (∃ m ∈ own, Overflows (-0.0) m.latency.toList) ∨ Overflows 0.0 (own.map Measurement.latencyTotal)

theorem isFinite_mean_iff (part : Measurement → Float) (hne : own ≠ []) :
    (sumFrom 0.0 (own.map part) / Float.ofNat own.length).isFinite ↔
      (∀ m ∈ own, (part m).isFinite) ∧ ¬Overflows 0.0 (own.map part) := by
  have hzero : (0.0 : Float).isFinite := rfl
  rw [isFinite_div_ofNat _ (List.length_pos_iff.mpr hne), isFinite_sumFrom_iff hzero,
    List.forall_mem_map]

namespace Experiment.IsMeanOf

variable {e : Experiment}

theorem ne_nil (h : e.IsMeanOf own) : own ≠ [] := by
  rintro rfl
  obtain ⟨m, hm, -⟩ := h.first
  cases hm

theorem isFinite_bandwidthTotal (h : e.IsMeanOf own) (hown : ∀ m ∈ own, m.IsFinite) :
    e.bandwidthTotal.isFinite ↔ ¬BandwidthOverflows own := by
  rw [h.bandwidthTotal, isFinite_mean_iff _ h.ne_nil, BandwidthOverflows, not_or]
  refine and_congr_left' ?_
  push Not
  exact forall₂_congr fun m hm => isFinite_bandwidthTotal_iff (hown m hm)

theorem isFinite_latency (h : e.IsMeanOf own) (hown : ∀ m ∈ own, m.IsFinite) (p : Phase) :
    (PerPhase.value e.latency p).isFinite ↔ ¬PhaseOverflows p own := by
  rw [h.latency p, isFinite_mean_iff _ h.ne_nil]
  exact and_iff_right fun m hm => isFinite_latencySeconds (hown m hm) p

theorem isFinite_latencyTotal (h : e.IsMeanOf own) (hown : ∀ m ∈ own, m.IsFinite) :
    e.latencyTotal.isFinite ↔ ¬LatencyOverflows own := by
  rw [h.latencyTotal, isFinite_mean_iff _ h.ne_nil, LatencyOverflows, not_or]
  refine and_congr_left' ?_
  push Not
  exact forall₂_congr fun m hm => isFinite_latencyTotal_iff (hown m hm)

end Experiment.IsMeanOf

end BenchTables
