import BenchTables.Proofs.Condensed.ZeroRate
import BenchTables.Proofs.Experiment.Size

/-!
# Condensed tables in order

Condensed tables have the experiments of their rows by keys, ties by ascending identifiers, and
only one arrangement of the experiments is in that order (`IsTableOrder.unique`).  As the mean size
is the first key, the column of sizes never decreases.  `condensed_tables_in_order` puts that
together.
-/

namespace BenchTables

open Binary64

namespace Experiment

/-- The keys by which round-trip tables are sorted. -/
def sizeKeys (e : Experiment) : List ℤ :=
  [totalOrderKey e.dbSize]

/-- The keys by which bandwidth tables are sorted. -/
def sizeRateKeys (e : Experiment) : List ℤ :=
  [totalOrderKey e.dbSize, totalOrderKey e.rate]

/-- An experiment comes before another by its keys, or by the bytes of its identifier if those are
the same. -/
def Precedes (keys : Experiment → List ℤ) (a b : Experiment) : Prop :=
  keys a < keys b ∨ keys a = keys b ∧ Text.encode a.id < Text.encode b.id

instance (keys : Experiment → List ℤ) (a b : Experiment) : Decidable (a.Precedes keys b) :=
  inferInstanceAs (Decidable (_ ∨ _ ∧ _))

variable {keys : Experiment → List ℤ} {a b : Experiment}

theorem Precedes.asymm (hab : a.Precedes keys b) : ¬b.Precedes keys a := by
  rintro (hba | ⟨heq, hba⟩)
  · rcases hab with hab | ⟨heq, -⟩
    · exact List.lt_asymm hab hba
    · rw [heq] at hba
      exact List.lt_irrefl _ hba
  · rcases hab with hab | ⟨-, hab⟩
    · rw [heq] at hab
      exact List.lt_irrefl _ hab
    · exact List.lt_asymm hab hba

theorem sizeLE_trans (a b c : Experiment) (hab : a.sizeLE b) (hbc : b.sizeLE c) : a.sizeLE c := by
  rw [sizeLE_iff] at hab hbc ⊢
  omega

theorem sizeLE_total (a b : Experiment) : a.sizeLE b || b.sizeLE a := by
  rw [Bool.or_eq_true, sizeLE_iff, sizeLE_iff]
  omega

theorem precedes_of_sizeLE (hle : a.sizeLE b)
    (hties : b.sizeLE a → Text.encode a.id < Text.encode b.id) : a.Precedes sizeKeys b := by
  rw [sizeLE_iff] at hle hties
  unfold Precedes sizeKeys
  rcases hle.lt_or_eq with hlt | heq
  · exact Or.inl (List.cons_lt_cons_iff.mpr (Or.inl hlt))
  · exact Or.inr ⟨by rw [heq], hties heq.ge⟩

theorem precedes_of_sizeRateLE (hle : a.sizeRateLE b)
    (hties : b.sizeRateLE a → Text.encode a.id < Text.encode b.id) : a.Precedes sizeRateKeys b := by
  rw [sizeRateLE_iff] at hle hties
  unfold Precedes sizeRateKeys
  rcases hle with hlt | ⟨heq, hle⟩
  · exact Or.inl (List.cons_lt_cons_iff.mpr (Or.inl hlt))
  rcases hle.lt_or_eq with hlt | hrate
  · exact Or.inl (List.cons_lt_cons_iff.mpr (Or.inr ⟨heq, List.cons_lt_cons_iff.mpr (Or.inl hlt)⟩))
  · exact Or.inr ⟨by rw [heq, hrate], hties (Or.inr ⟨heq.symm, hrate.ge⟩)⟩

/-- What comes before by keys that begin with the size has no greater a size. -/
theorem Precedes.size_le {rest : Experiment → List ℤ}
    (h : a.Precedes (fun e => totalOrderKey e.dbSize :: rest e) b) :
    totalOrderKey a.dbSize ≤ totalOrderKey b.dbSize := by
  rcases h with hlt | ⟨heq, -⟩
  · rcases List.cons_lt_cons_iff.mp hlt with hsize | ⟨hsize, -⟩
    · exact hsize.le
    · exact hsize.le
  · exact (List.cons_eq_cons.mp heq).1.le

end Experiment

/-! ## Arrangements -/

/-- All experiments of rows, each of them once, in the order of keys. -/
structure IsTableOrder (keys : Experiment → List ℤ) (rows : List Measurement)
    (es : List Experiment) : Prop where
  perm : es.Perm (experiments rows)
  pairwise : es.Pairwise (Experiment.Precedes keys)

theorem isTableOrder_iff {keys : Experiment → List ℤ} {rows : List Measurement}
    {es : List Experiment} : IsTableOrder keys rows es ↔
      es.Perm (experiments rows) ∧ es.Pairwise (Experiment.Precedes keys) :=
  ⟨fun h => ⟨h.perm, h.pairwise⟩, fun ⟨hperm, hpairwise⟩ => ⟨hperm, hpairwise⟩⟩

instance (keys : Experiment → List ℤ) (rows : List Measurement) (es : List Experiment) :
    Decidable (IsTableOrder keys rows es) :=
  decidable_of_iff _ isTableOrder_iff.symm

variable {rows : List Measurement} {keys : Experiment → List ℤ} {es es' : List Experiment}

theorem IsTableOrder.unique (h : IsTableOrder keys rows es) (h' : IsTableOrder keys rows es') :
    es = es' := by
  refine (h.perm.trans h'.perm.symm).eq_of_pairwise (fun a b _ _ hab hba => ?_) h.pairwise
    h'.pairwise
  exact absurd hba hab.asymm

theorem isUnsigned_dbSize {e : Experiment} (he : e ∈ experiments rows) : IsUnsigned e.dbSize :=
  (isMeanOf_of_mem_experiments he).isUnsigned_dbSize

theorem IsTableOrder.pairwise_entries (rest : Experiment → List ℤ)
    (h : IsTableOrder (fun e => totalOrderKey e.dbSize :: rest e) rows es) :
    es.Pairwise fun a b => a.dbSizeEntries ≤ b.dbSizeEntries := by
  apply h.pairwise.imp_of_mem
  intro a b _ hb hab
  exact nearestUInt64_le (isUnsigned_dbSize (h.perm.mem_iff.mp hb)).isFinite hab.size_le

/-- Experiments that are sorted by keys, with ties in the order in which they were, are in the order
of these keys. -/
theorem isTableOrder_mergeSort {le : Experiment → Experiment → Bool}
    (htrans : ∀ a b c, le a b → le b c → le a c) (htotal : ∀ a b, le a b || le b a)
    (hkeys : ∀ a b, le a b → (le b a → Text.encode a.id < Text.encode b.id) →
      a.Precedes keys b) (rows : List Measurement) :
    IsTableOrder keys rows ((experiments rows).mergeSort le) := by
  refine ⟨List.mergeSort_perm _ _, ?_⟩
  apply (pairwise_mergeSort_ties htrans htotal (pairwise_id_experiments rows)).imp_of_mem
  rintro a b ha hb ⟨hle, hties⟩
  refine hkeys a b hle fun hba => ?_
  -- Identifiers are ASCII, so their bytes are ordered as they are.
  exact Text.encode_lt_encode (isAscii_id (List.mem_mergeSort.mp ha))
    (isAscii_id (List.mem_mergeSort.mp hb)) (hties hba)

theorem isTableOrder_latency (rows : List Measurement) :
    IsTableOrder Experiment.sizeKeys rows ((experiments rows).mergeSort Experiment.sizeLE) :=
  isTableOrder_mergeSort Experiment.sizeLE_trans Experiment.sizeLE_total
    (fun _ _ => Experiment.precedes_of_sizeLE) rows

theorem isTableOrder_bandwidth (rows : List Measurement) :
    IsTableOrder Experiment.sizeRateKeys rows
      ((experiments rows).mergeSort Experiment.sizeRateLE) :=
  isTableOrder_mergeSort Experiment.sizeRateLE_trans Experiment.sizeRateLE_total
    (fun _ _ => Experiment.precedes_of_sizeRateLE) rows

/-! ## Tables -/

/-- Condensed tables have one row for each experiment.  There is one arrangement of the experiments
by mean size, and by mean size and mean rate, with ties by identifiers, and the tables are in it.
The size in a row is the mean size, a half rounded up, or the greatest word if that is smaller, and
it never decreases from one row to the next. -/
theorem condensed_tables_in_order (rows : List Measurement) :
    ((experiments rows).map Experiment.id).Nodup ∧
    (∃! es, IsTableOrder Experiment.sizeKeys rows es) ∧
    (∀ es, IsTableOrder Experiment.sizeKeys rows es →
      latencyRows rows = es.map Experiment.latencyRow) ∧
    ((latencyRows rows).Pairwise fun a b => a.dbSize ≤ b.dbSize) ∧
    (∃! es, IsTableOrder Experiment.sizeRateKeys rows es) ∧
    (∀ table, bandwidthRows rows = .ok table →
      (∀ es, IsTableOrder Experiment.sizeRateKeys rows es →
        List.Forall₂ (fun e row => e.bandwidthRow = .ok row) es table) ∧
      table.Pairwise fun a b => a.dbSize ≤ b.dbSize) ∧
    ∀ e ∈ experiments rows, e.dbSizeEntries.toNat =
      min ⌊magnitude e.dbSize.toModel.unpack + 1 / 2⌋₊ (2 ^ 64 - 1) := by
  have hlatency := isTableOrder_latency rows
  have hbandwidth := isTableOrder_bandwidth rows
  refine ⟨?_, ⟨_, hlatency, fun es hes => hes.unique hlatency⟩, ?_, ?_,
    ⟨_, hbandwidth, fun es hes => hes.unique hbandwidth⟩, ?_, ?_⟩
  · rw [List.Nodup, List.pairwise_map]
    exact (pairwise_id_experiments rows).imp fun hlt => ne_of_lt hlt
  · intro es hes
    rw [hes.unique hlatency]
    rfl
  · unfold latencyRows
    rw [List.pairwise_map]
    exact IsTableOrder.pairwise_entries (fun _ => []) hlatency
  · intro table htable
    refine ⟨fun es hes => ?_, ?_⟩
    · rw [hes.unique hbandwidth]
      exact forall₂_of_mapM_eq_ok htable
    · rw [eq_map_of_mapM_eq_ok (fun _ _ => bandwidthRow_eq_ok) htable, List.pairwise_map]
      exact IsTableOrder.pairwise_entries (fun e => [totalOrderKey e.rate]) hbandwidth
  · intro e he
    have hsize := isUnsigned_dbSize he
    exact toNat_nearestUInt64 hsize.isFinite hsize.sign

/-- Four configurations, three of them of one size, and of these two of one rate. -/
def tiedRows : List Measurement :=
  [{ sizedMeasurement 1024 16 64 with rate := 3 }, sizedMeasurement 1024 32 64,
    sizedMeasurement 1024 24 64, sizedMeasurement 512 32 64]

/-- The smallest database comes first though its identifier comes last, and the rate decides before
the identifier in the bandwidth table only. -/
theorem condensed_tables_in_order_tiedRows :
    (latencyRows tiedRows).map CondensedRow.id = ["5123264False1False1", "10241664False3False1",
      "10242464False1False1", "10243264False1False1"] ∧
    ∃ table, bandwidthRows tiedRows = .ok table ∧
      table.map CondensedRow.id = ["5123264False1False1", "10242464False1False1",
        "10243264False1False1", "10241664False3False1"] ∧
      table.Pairwise fun a b => a.dbSize ≤ b.dbSize := by
  obtain ⟨-, -, hlatency, -, -, hbandwidth, -⟩ := condensed_tables_in_order tiedRows
  have hsizes : IsTableOrder Experiment.sizeKeys tiedRows
      ((experiments tiedRows).drop 3 ++ (experiments tiedRows).take 3) := by
    decide +kernel
  have hrates : IsTableOrder Experiment.sizeRateKeys tiedRows
      ((experiments tiedRows).drop 3 ++ ((experiments tiedRows).drop 1).take 2 ++
        (experiments tiedRows).take 1) := by
    decide +kernel
  have haccepted : ¬∃ error, bandwidthRows tiedRows = .error error := by
    rw [exists_bandwidthRows_error_iff (by decide)]
    decide
  obtain ⟨table, htable⟩ := exists_eq_ok_iff.mpr fun error h => haccepted ⟨error, h⟩
  obtain ⟨hrows, hascending⟩ := hbandwidth table htable
  refine ⟨?_, table, htable, ?_, hascending⟩
  · rw [hlatency _ hsizes]
    decide +kernel
  · have hids : List.Forall₂ (fun (e : Experiment) (row : BandwidthRow) => e.id = row.id) _ table :=
      (hrows _ hrates).imp fun e row hrow => by rw [bandwidthRow_eq_ok hrow]
    rw [← List.forall₂_map_right_iff, ← List.forall₂_map_left_iff (f := Experiment.id),
      List.forall₂_eq_eq_eq] at hids
    rw [← hids]
    decide +kernel

end BenchTables
