import BenchTables.Proofs.Latex.Refusal
import BenchTables.Proofs.Latex.RoundTripLayout

/-!
# Gaps in the round-trip table

The round-trip table needs a row of either variant at each of its sizes and rates, which are those
of the authenticated rows.  It is refused for a size of zero before anything else, then for the
first place that has no row, and for nothing else: `roundTripTable_refused`.
-/

namespace BenchTables.Latex

/-- A place of the round-trip table. -/
@[ext]
structure Place where
  dbSize : UInt64
  rate : UInt64
  variant : Variant
deriving DecidableEq

/-- One place stands no later than another: they are in order of sizes, then of rates, and at one
size and rate the place without malicious security is the first. -/
def Place.NoLater (p q : Place) : Prop :=
  p.dbSize < q.dbSize ∨ p.dbSize = q.dbSize ∧
    (p.rate < q.rate ∨ p.rate = q.rate ∧ (p.variant = q.variant ∨ p.variant = .noAuth))

/-- A size and a rate of the authenticated rows, but no row of the variant has both. -/
structure IsGap (noAuth auth : List LatencyRow) (p : Place) : Prop where
  dbSize : ∃ row ∈ auth, row.dbSize = p.dbSize
  rate : ∃ row ∈ auth, row.rate = p.rate
  no_row : ∀ row ∈ rowsOf noAuth auth p.variant, ¬(row.dbSize = p.dbSize ∧ row.rate = p.rate)

/-- The gap that stands before all others. -/
structure IsFirstGap (noAuth auth : List LatencyRow) (p : Place) : Prop where
  gap : IsGap noAuth auth p
  noLater : ∀ q, IsGap noAuth auth q → p.NoLater q

variable {noAuth auth : List LatencyRow} {rates : List UInt64} {dbSize rate : UInt64}
  {variant : Variant} {error : RoundTripError} {p q : Place}

theorem Place.NoLater.antisymm (hpq : p.NoLater q) (hqp : q.NoLater p) : p = q := by
  obtain ⟨size, rate, variant⟩ := p
  obtain ⟨size', rate', variant'⟩ := q
  simp only [Place.NoLater, UInt64.lt_iff_toNat_lt, ← UInt64.toNat_inj] at hpq hqp
  have hsize : size.toNat = size'.toNat := by omega
  have hrate : rate.toNat = rate'.toNat := by omega
  refine Place.ext (UInt64.toNat_inj.mp hsize) (UInt64.toNat_inj.mp hrate) ?_
  -- At one size and rate only the variants are left to compare.
  simp only [hsize, hrate, Nat.lt_irrefl, false_or, true_and] at hpq hqp
  rcases hpq with heq | rfl
  · exact heq
  · exact hqp.elim Eq.symm Eq.symm

theorem IsFirstGap.unique (hp : IsFirstGap noAuth auth p) (hq : IsFirstGap noAuth auth q) :
    p = q :=
  (hp.noLater q hq.gap).antisymm (hq.noLater p hp.gap)

/-- There is no gap where both variants have a row for each size with each rate. -/
theorem not_isGap_of_forall (h : ∀ row ∈ auth, ∀ other ∈ auth, ∀ v, ∃ found ∈ rowsOf noAuth auth v,
    found.dbSize = row.dbSize ∧ found.rate = other.rate) : ¬IsGap noAuth auth p := by
  rintro ⟨⟨row, hrow, hsize⟩, ⟨other, hother, hrate⟩, hmissing⟩
  obtain ⟨found, hfound, hplace⟩ := h row hrow other hother p.variant
  rw [hsize, hrate] at hplace
  exact hmissing found hfound hplace

/-! ## Lines and blocks -/

theorem lineAt_eq_error_iff {rows : Variant → List LatencyRow} :
    lineAt rows dbSize rate variant = .error error ↔
      (∀ row ∈ rows variant, ¬(row.dbSize = dbSize ∧ row.rate = rate)) ∧
        error = .missingMeasurement variant dbSize rate := by
  have hnone : rowAt? (rows variant) dbSize rate = none ↔
      ∀ row ∈ rows variant, ¬(row.dbSize = dbSize ∧ row.rate = rate) := by
    simp [rowAt?]
  rw [← hnone]
  unfold lineAt
  cases rowAt? (rows variant) dbSize rate with
  | some row => simp
  | none => simp [eq_comm]

theorem pairwise_places (h : rates.Pairwise (· < ·)) : (places rates).Pairwise fun a b =>
    a.1 < b.1 ∨ a.1 = b.1 ∧ a.2 = .noAuth := by
  unfold places
  rw [List.pairwise_flatMap]
  constructor
  · intro rate _
    simp
  · apply h.imp
    intro rate rate' hlt a ha b hb
    left
    simp only [List.mem_cons, List.not_mem_nil, or_false] at ha hb
    rcases ha with rfl | rfl <;> rcases hb with rfl | rfl <;> exact hlt

theorem mem_places : (rate, variant) ∈ places rates ↔ rate ∈ rates := by
  unfold places
  rw [List.mem_flatMap]
  constructor
  · rintro ⟨other, hother, hmem⟩
    simp only [List.mem_cons, List.not_mem_nil, or_false, Prod.mk.injEq] at hmem
    rcases hmem with ⟨rfl, -⟩ | ⟨rfl, -⟩ <;> exact hother
  · intro hrate
    refine ⟨rate, hrate, ?_⟩
    cases variant <;> simp

theorem blockAt_zero : blockAt noAuth auth rates 0 = .error .emptyDatabase := rfl

/-- A block of a size other than zero is refused for the first of its lines that has no row. -/
theorem lines_of_blockAt_eq_error (hsize : dbSize ≠ 0)
    (h : blockAt noAuth auth rates dbSize = .error error) :
    (places rates).mapM (fun place => lineAt (rowsOf noAuth auth) dbSize place.1 place.2) =
      .error error := by
  have hlabel : powerOfTwo? dbSize =
      some ("$2^" ++ braced (Decimal.natText dbSize.toNat.log2) ++ "$") := if_neg hsize
  unfold blockAt at h
  rw [hlabel] at h
  change ((places rates).mapM (fun place => lineAt (rowsOf noAuth auth) dbSize place.1 place.2) >>=
    fun lines => _) = _ at h
  cases hlines : (places rates).mapM fun place =>
      lineAt (rowsOf noAuth auth) dbSize place.1 place.2 with
  | error e =>
    rw [hlines] at h
    cases h
    rfl
  | ok lines =>
    rw [hlines] at h
    cases h

theorem blockAt_ne_ok {block : RoundTripBlock} (hgap : IsGap noAuth auth p)
    (hrates : p.rate ∈ rates) : blockAt noAuth auth rates p.dbSize ≠ .ok block := by
  intro h
  obtain ⟨-, -, hlines⟩ := blockAt_eq_ok h
  obtain ⟨line, -, row, -, hrow, before, after, hsplit, -⟩ :=
    exists_left_of_forall₂ hlines.flip (mem_places.mpr hrates : (p.rate, p.variant) ∈ _)
  refine hgap.no_row row ?_ hrow
  rw [hsplit]
  simp

/-! ## The table -/

theorem mem_sizes : dbSize ∈ distinctAscending (auth.map (·.dbSize)) ↔
    ∃ row ∈ auth, row.dbSize = dbSize := by
  rw [mem_distinctAscending, List.mem_map]

theorem mem_rates : rate ∈ distinctAscending (auth.map (·.rate)) ↔
    ∃ row ∈ auth, row.rate = rate := by
  rw [mem_distinctAscending, List.mem_map]

theorem blocks_eq_ok {made : List RoundTripBlock} (h : blocks noAuth auth = .ok made) :
    (∀ row ∈ auth, row.dbSize ≠ 0) ∧ ∀ p, ¬IsGap noAuth auth p := by
  constructor
  · intro row hrow hzero
    obtain ⟨block, hblock⟩ := exists_eq_ok_of_mapM_eq_ok h (mem_sizes.mpr ⟨row, hrow, rfl⟩)
    rw [hzero, blockAt_zero] at hblock
    cases hblock
  · intro p hgap
    obtain ⟨block, hblock⟩ := exists_eq_ok_of_mapM_eq_ok h (mem_sizes.mpr hgap.dbSize)
    exact blockAt_ne_ok hgap (mem_rates.mpr hgap.rate) hblock

theorem blocks_eq_error (h : blocks noAuth auth = .error error) :
    (∃ row ∈ auth, row.dbSize = 0) ∧ error = .emptyDatabase ∨
      (∀ row ∈ auth, row.dbSize ≠ 0) ∧ ∃ p, IsFirstGap noAuth auth p ∧
        error = .missingMeasurement p.variant p.dbSize p.rate := by
  obtain ⟨size, hsize, hblock, hsizes⟩ :=
    exists_first_of_mapM_eq_error (pairwise_distinctAscending _) h
  by_cases hzero : size = 0
  · subst hzero
    rw [blockAt_zero] at hblock
    cases hblock
    exact Or.inl ⟨mem_sizes.mp hsize, rfl⟩
  right
  obtain ⟨⟨rate, variant⟩, hplace, hline, hplaces⟩ := exists_first_of_mapM_eq_error
    (pairwise_places (pairwise_distinctAscending _)) (lines_of_blockAt_eq_error hzero hblock)
  obtain ⟨hnone, rfl⟩ := lineAt_eq_error_iff.mp hline
  refine ⟨fun row hrow hrowZero => ?_, ⟨size, rate, variant⟩, ⟨?_, ?_⟩, rfl⟩
  · -- A size of zero would come first and be refused itself.
    rcases hsizes 0 (mem_sizes.mpr ⟨row, hrow, hrowZero⟩) nofun with rfl | hlt
    · exact hzero rfl
    · exact UInt64.not_lt_zero hlt
  · exact ⟨mem_sizes.mp hsize, mem_rates.mp (mem_places.mp hplace), hnone⟩
  · intro q hgap
    have hrate := mem_rates.mpr hgap.rate
    rcases hsizes q.dbSize (mem_sizes.mpr hgap.dbSize) fun block => blockAt_ne_ok hgap hrate with
      hsame | hlt
    · have hline := lineAt_eq_error_iff.mpr ⟨hsame ▸ hgap.no_row, rfl⟩
      have hlater := hplaces (q.rate, q.variant) (mem_places.mpr hrate) fun line => by
        rw [hline]
        exact nofun
      refine Or.inr ⟨hsame.symm, ?_⟩
      rcases hlater with hplace | hlt | ⟨hsameRate, hvariant⟩
      · obtain ⟨hsameRate, hsameVariant⟩ := Prod.mk.inj hplace
        exact Or.inr ⟨hsameRate.symm, Or.inl hsameVariant.symm⟩
      · exact Or.inl hlt
      · exact Or.inr ⟨hsameRate, Or.inr hvariant⟩
    · exact Or.inl hlt

theorem blocks_emptyDatabase_iff :
    blocks noAuth auth = .error .emptyDatabase ↔ ∃ row ∈ auth, row.dbSize = 0 := by
  constructor
  · intro h
    rcases blocks_eq_error h with ⟨hzero, -⟩ | ⟨-, p, -, hp⟩
    · exact hzero
    · cases hp
  · rintro ⟨row, hrow, hzero⟩
    cases h : blocks noAuth auth with
    | ok made => exact absurd hzero ((blocks_eq_ok h).1 row hrow)
    | error error =>
      rcases blocks_eq_error h with ⟨-, rfl⟩ | ⟨hsizes, -⟩
      · rfl
      · exact absurd hzero (hsizes row hrow)

theorem blocks_missingMeasurement_iff :
    blocks noAuth auth = .error (.missingMeasurement p.variant p.dbSize p.rate) ↔
      (∀ row ∈ auth, row.dbSize ≠ 0) ∧ IsFirstGap noAuth auth p := by
  constructor
  · intro h
    rcases blocks_eq_error h with ⟨-, hzero⟩ | ⟨hsizes, q, hq, heq⟩
    · cases hzero
    · obtain ⟨hvariant, hsize, hrate⟩ := RoundTripError.missingMeasurement.inj heq
      obtain rfl : p = q := Place.ext hsize hrate hvariant
      exact ⟨hsizes, hq⟩
  · rintro ⟨hsizes, hp⟩
    cases h : blocks noAuth auth with
    | ok made => exact absurd hp.gap ((blocks_eq_ok h).2 p)
    | error error =>
      rcases blocks_eq_error h with ⟨⟨row, hrow, hzero⟩, -⟩ | ⟨-, q, hq, rfl⟩
      · exact absurd hzero (hsizes row hrow)
      · rw [hp.unique hq]

theorem exists_blocks_iff : (∃ made, blocks noAuth auth = .ok made) ↔
    (∀ row ∈ auth, row.dbSize ≠ 0) ∧ ∀ p, ¬IsGap noAuth auth p := by
  constructor
  · rintro ⟨made, h⟩
    exact blocks_eq_ok h
  · rintro ⟨hsizes, hgaps⟩
    cases h : blocks noAuth auth with
    | ok made => exact ⟨made, rfl⟩
    | error error =>
      rcases blocks_eq_error h with ⟨⟨row, hrow, hzero⟩, -⟩ | ⟨-, p, hp, -⟩
      · exact absurd hzero (hsizes row hrow)
      · exact absurd hp.gap (hgaps p)

/-- Among gaps there is a first one. -/
theorem exists_firstGap (hsizes : ∀ row ∈ auth, row.dbSize ≠ 0) (hp : IsGap noAuth auth p) :
    ∃ q, IsFirstGap noAuth auth q := by
  cases h : blocks noAuth auth with
  | ok made => exact absurd hp ((blocks_eq_ok h).2 p)
  | error error =>
    rcases blocks_eq_error h with ⟨⟨row, hrow, hzero⟩, -⟩ | ⟨-, q, hq, -⟩
    · exact absurd hzero (hsizes row hrow)
    · exact ⟨q, hq⟩

theorem roundTripTable_eq_error_iff (labels : RowLabels) :
    roundTripTable labels noAuth auth = .error error ↔ blocks noAuth auth = .error error := by
  unfold roundTripTable
  cases blocks noAuth auth with
  | error e => simp [bind, Except.bind]
  | ok made => exact ⟨nofun, nofun⟩

theorem exists_roundTripTable_iff (labels : RowLabels) :
    (∃ text, roundTripTable labels noAuth auth = .ok text) ↔
      ∃ made, blocks noAuth auth = .ok made := by
  unfold roundTripTable
  cases blocks noAuth auth with
  | error e => exact ⟨nofun, nofun⟩
  | ok made => exact ⟨fun _ => ⟨made, rfl⟩, fun _ => ⟨_, rfl⟩⟩

/-- The round-trip table is refused for a size of zero, whatever else is missing; else for the first
of its gaps, and without one it can be made.  With no authenticated rows there are no places and so
no gaps. -/
theorem roundTripTable_refused (labels : RowLabels) (noAuth auth : List LatencyRow) :
    (roundTripTable labels noAuth auth = .error .emptyDatabase ↔
      ∃ row ∈ auth, row.dbSize = 0) ∧
    ((∃ variant dbSize rate,
        roundTripTable labels noAuth auth = .error (.missingMeasurement variant dbSize rate)) ↔
      (∀ row ∈ auth, row.dbSize ≠ 0) ∧ ∃ p, IsGap noAuth auth p) ∧
    (∀ variant dbSize rate,
      roundTripTable labels noAuth auth = .error (.missingMeasurement variant dbSize rate) ↔
        (∀ row ∈ auth, row.dbSize ≠ 0) ∧ IsFirstGap noAuth auth ⟨dbSize, rate, variant⟩) ∧
    ((∃ text, roundTripTable labels noAuth auth = .ok text) ↔
      (∀ row ∈ auth, row.dbSize ≠ 0) ∧ ∀ p, ¬IsGap noAuth auth p) ∧
    ∃ text, roundTripTable labels noAuth [] = .ok text := by
  simp only [roundTripTable_eq_error_iff, exists_roundTripTable_iff]
  refine ⟨blocks_emptyDatabase_iff, ?_, fun variant dbSize rate => ?_, exists_blocks_iff, ?_⟩
  · constructor
    · rintro ⟨variant, dbSize, rate, h⟩
      obtain ⟨hsizes, hp⟩ :=
        (blocks_missingMeasurement_iff (p := ⟨dbSize, rate, variant⟩)).mp h
      exact ⟨hsizes, _, hp.gap⟩
    · rintro ⟨hsizes, p, hp⟩
      obtain ⟨q, hq⟩ := exists_firstGap hsizes hp
      exact ⟨_, _, _, blocks_missingMeasurement_iff.mpr ⟨hsizes, hq⟩⟩
  · exact blocks_missingMeasurement_iff (p := ⟨dbSize, rate, variant⟩)
  · refine exists_blocks_iff.mpr ⟨fun row hrow => absurd hrow List.not_mem_nil, fun p hp => ?_⟩
    obtain ⟨row, hrow, -⟩ := hp.dbSize
    exact absurd hrow List.not_mem_nil

end BenchTables.Latex
