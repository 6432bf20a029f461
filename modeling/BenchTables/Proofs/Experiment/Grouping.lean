import BenchTables.Proofs.Experiment.Identifier
import BenchTables.Proofs.Experiment.Ledger

/-!
# Experiments as means of their rows

What the experiments of measurements are, with no ledger in sight: one for each identifier that
occurs, in ascending order, each the mean over the rows with its identifier (`IsMeanOf`).
`experiments_of_rows` puts that together.
-/

namespace BenchTables

/-- An experiment is the mean of measurements: it has the configuration of the first of them, their
number, and for each figure their sum from left to right, divided by their number. -/
structure Experiment.IsMeanOf (e : Experiment) (own : List Measurement) : Prop where
  first : ∃ m, own.head? = some m ∧ e.variant = m.variant ∧ e.multiClient = m.multiClient ∧
    e.keyLength = m.keyLength ∧ e.valueLength = m.valueLength ∧ e.threads = m.threads
  repetitions : e.repetitions = own.length
  dbSize : e.dbSize = sumFrom 0.0 (own.map fun m => m.dbSize.toFloat) / Float.ofNat own.length
  rate : e.rate = sumFrom 0.0 (own.map fun m => m.rate.toFloat) / Float.ofNat own.length
  bandwidthTotal :
    e.bandwidthTotal = sumFrom 0.0 (own.map Measurement.bandwidthTotal) / Float.ofNat own.length
  latency : ∀ p, PerPhase.value e.latency p =
    sumFrom 0.0 (own.map fun m => PerPhase.value m.latencySeconds p) / Float.ofNat own.length
  latencyTotal :
    e.latencyTotal = sumFrom 0.0 (own.map Measurement.latencyTotal) / Float.ofNat own.length

/-! ## Tallies -/

namespace Tally

/-- A figure to which each row adds is the sum of what the rows add. -/
theorem foldl_add_figure (figure : Tally → Float) {part : Measurement → Float}
    (hadd : ∀ t m, figure (add t m) = figure t + part m) (t : Tally) (own : List Measurement) :
    figure (own.foldl add t) = sumFrom (figure t) (own.map part) := by
  induction own generalizing t with
  | nil => rfl
  | cons m rest ih =>
    rw [List.foldl_cons, ih, hadd]
    rfl

theorem foldl_add_repetitions (t : Tally) (own : List Measurement) :
    (own.foldl add t).repetitions = t.repetitions + own.length := by
  induction own generalizing t with
  | nil => rfl
  | cons m rest ih =>
    rw [List.foldl_cons, ih, List.length_cons, Nat.add_comm rest.length, ← Nat.add_assoc]
    rfl

theorem foldl_add_config {α : Type} (config : Tally → α) (hadd : ∀ t m, config (add t m) = config t)
    (t : Tally) (own : List Measurement) : config (own.foldl add t) = config t := by
  induction own generalizing t with
  | nil => rfl
  | cons m rest ih => rw [List.foldl_cons, ih, hadd]

theorem value_zipWith (x y : PerPhase Float) (p : Phase) :
    PerPhase.value (x.zipWith (· + ·) y) p = PerPhase.value x p + PerPhase.value y p := by
  simp [PerPhase.value]

theorem value_map (x : PerPhase Float) (f : Float → Float) (p : Phase) :
    PerPhase.value (x.map f) p = f (PerPhase.value x p) := by
  simp [PerPhase.value]

theorem value_start (m : Measurement) (p : Phase) : PerPhase.value (start m).latency p = 0.0 := by
  simp [PerPhase.value, start]

theorem repetitions_ofRows {own : List Measurement} {t : Tally} (h : ofRows own = some t) :
    t.repetitions = own.length := by
  cases own with
  | nil => cases h
  | cons m rest =>
    cases h
    rw [foldl_add_repetitions]
    exact Nat.zero_add _

theorem mean_isMeanOf {own : List Measurement} {t : Tally} (h : ofRows own = some t) (id : String) :
    (t.mean id).IsMeanOf own := by
  have hcount := repetitions_ofRows h
  cases own with
  | nil => cases h
  | cons m rest =>
    obtain rfl : (m :: rest).foldl add (start m) = t := Option.some.inj h
    -- The configuration is that of the first row, which starts the tally; all else is summed.
    refine ⟨⟨m, rfl, ?_, ?_, ?_, ?_, ?_⟩, hcount, ?_, ?_, ?_, fun p => ?_, ?_⟩
    · exact foldl_add_config variant (fun _ _ => rfl) ..
    · exact foldl_add_config multiClient (fun _ _ => rfl) ..
    · exact foldl_add_config keyLength (fun _ _ => rfl) ..
    · exact foldl_add_config valueLength (fun _ _ => rfl) ..
    · exact foldl_add_config threads (fun _ _ => rfl) ..
    · rw [mean, hcount]
      exact congrArg (· / _) (foldl_add_figure dbSize (fun _ _ => rfl) ..)
    · rw [mean, hcount]
      exact congrArg (· / _) (foldl_add_figure rate (fun _ _ => rfl) ..)
    · rw [mean, hcount]
      exact congrArg (· / _) (foldl_add_figure bandwidthTotal (fun _ _ => rfl) ..)
    · rw [mean, hcount, value_map]
      refine congrArg (· / _) ?_
      rw [foldl_add_figure (fun t => PerPhase.value t.latency p)
        (fun t m => value_zipWith t.latency m.latencySeconds p), value_start]
    · rw [mean, hcount]
      exact congrArg (· / _) (foldl_add_figure latencyTotal (fun _ _ => rfl) ..)

end Tally

/-! ## Experiments -/

theorem mem_experiments_iff {rows : List Measurement} {e : Experiment} :
    e ∈ experiments rows ↔ ∃ t, Tally.ofRows (ownRows e.id rows) = some t ∧ t.mean e.id = e := by
  have hasc := Ledger.ascending_enterAll_nil rows
  rw [experiments, Ledger.experiments, List.mem_map]
  constructor
  · rintro ⟨⟨id, t⟩, hmem, rfl⟩
    exact ⟨t, (Ledger.lookup_enterAll rows id).symm.trans (Ledger.lookup_of_mem hasc hmem), rfl⟩
  · rintro ⟨t, ht, he⟩
    exact ⟨(e.id, t), Ledger.mem_of_lookup ((Ledger.lookup_enterAll rows e.id).trans ht), he⟩

theorem isMeanOf_of_mem_experiments {rows : List Measurement} {e : Experiment}
    (h : e ∈ experiments rows) : e.IsMeanOf (ownRows e.id rows) := by
  obtain ⟨t, ht, he⟩ := mem_experiments_iff.mp h
  have := Tally.mean_isMeanOf ht e.id
  rwa [he] at this

/-- Experiments have the identifiers of rows. -/
theorem exists_experiment_iff {rows : List Measurement} {id : String} :
    (∃ e ∈ experiments rows, e.id = id) ↔ ∃ m ∈ rows, m.experimentId = id := by
  have hown : (∃ m ∈ rows, m.experimentId = id) ↔ ownRows id rows ≠ [] := by
    rw [ownRows, ne_eq, List.filter_eq_nil_iff]
    push Not
    simp
  rw [hown]
  constructor
  · rintro ⟨e, he, rfl⟩ hnil
    obtain ⟨t, ht, -⟩ := mem_experiments_iff.mp he
    rw [hnil] at ht
    cases ht
  · intro hne
    obtain ⟨t, ht⟩ := Option.ne_none_iff_exists'.mp fun h => hne (Tally.ofRows_eq_none_iff.mp h)
    exact ⟨t.mean id, mem_experiments_iff.mpr ⟨t, ht, rfl⟩, rfl⟩

theorem exists_row_of_mem_experiments {rows : List Measurement} {e : Experiment}
    (h : e ∈ experiments rows) : ∃ m ∈ rows, m.experimentId = e.id :=
  exists_experiment_iff.mp ⟨e, h, rfl⟩

theorem ownRows_ne_nil {rows : List Measurement} {e : Experiment} (h : e ∈ experiments rows) :
    ownRows e.id rows ≠ [] := by
  obtain ⟨m, hm, hid⟩ := exists_row_of_mem_experiments h
  have hown : m ∈ ownRows e.id rows := List.mem_filter.mpr ⟨hm, by simpa using hid⟩
  exact List.ne_nil_of_mem hown

theorem map_id_experiments (rows : List Measurement) :
    (experiments rows).map Experiment.id = (Ledger.enterAll [] rows).map Prod.fst := by
  rw [experiments, Ledger.experiments, List.map_map]
  rfl

theorem pairwise_id_experiments (rows : List Measurement) :
    (experiments rows).Pairwise fun a b => a.id < b.id := by
  rw [← List.pairwise_map (f := Experiment.id), map_id_experiments, List.pairwise_map]
  exact Ledger.ascending_enterAll_nil rows

theorem isAscii_id {rows : List Measurement} {e : Experiment} (h : e ∈ experiments rows) :
    Text.IsAscii e.id := by
  obtain ⟨m, -, hm⟩ := exists_row_of_mem_experiments h
  exact hm ▸ m.isAscii_experimentId

/-! ## Repetitions -/

theorem sum_repetitions_enter (l : Ledger) (id : String) (m : Measurement) :
    ((l.enter id m).map fun entry => entry.2.repetitions).sum =
      (l.map fun entry => entry.2.repetitions).sum + 1 := by
  induction l with
  | nil => rfl
  | cons entry rest ih =>
    obtain ⟨key, t⟩ := entry
    rw [Ledger.enter]
    split
    · simp [Tally.add, Tally.start]
      omega
    split
    · simp [Tally.add]
      omega
    · rw [List.map_cons, List.sum_cons, ih, List.map_cons, List.sum_cons]
      omega

theorem sum_repetitions_experiments (rows : List Measurement) :
    ((experiments rows).map Experiment.repetitions).sum = rows.length := by
  have hledger : ((Ledger.enterAll [] rows).map fun entry => entry.2.repetitions).sum =
      rows.length := by
    induction rows using List.reverseRecOn with
    | nil => rfl
    | append_singleton rows m ih =>
      rw [Ledger.enterAll_append_singleton, sum_repetitions_enter, ih, List.length_append,
        List.length_singleton]
  rw [← hledger, experiments, Ledger.experiments, List.map_map]
  rfl

/-- The experiments of measurements: one for each identifier of a row, by ascending bytes of the
identifiers, each the mean of the rows with its identifier, all rows counted once. -/
theorem experiments_of_rows (rows : List Measurement) :
    ((experiments rows).Pairwise fun a b => Text.encode a.id < Text.encode b.id) ∧
    (∀ id, (∃ e ∈ experiments rows, e.id = id) ↔ ∃ m ∈ rows, m.experimentId = id) ∧
    (∀ e ∈ experiments rows, e.IsMeanOf (rows.filter fun m => m.experimentId = e.id)) ∧
    (∀ e ∈ experiments rows, 0 < e.repetitions) ∧
    ((experiments rows).map Experiment.repetitions).sum = rows.length := by
  refine ⟨?_, fun id => exists_experiment_iff, fun e he => isMeanOf_of_mem_experiments he,
    fun e he => ?_, sum_repetitions_experiments rows⟩
  · -- Identifiers are ASCII, so their bytes are ordered as they are.
    apply (pairwise_id_experiments rows).imp_of_mem
    intro a b ha hb hab
    exact Text.encode_lt_encode (isAscii_id ha) (isAscii_id hb) hab
  · have hmean := isMeanOf_of_mem_experiments he
    obtain ⟨m, hm, -⟩ := hmean.first
    rw [hmean.repetitions]
    exact List.length_pos_of_mem (List.mem_of_mem_head? hm)

end BenchTables
