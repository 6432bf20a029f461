import BenchTables.Proofs.Condensed.Arithmetic
import BenchTables.Proofs.Experiment.Configuration
import BenchTables.Proofs.Experiment.Interleaving

/-!
# The order of experiments in the raw rows

Entries under different identifiers can be made in either order (`Arithmetic.enter_comm`).  So a row
can be moved past all rows with other identifiers, and lists with the same repetitions come to the
same ledger (`Arithmetic.enterAll_eq`).  Experiments, tables and refusals are the same with them,
whatever addition and division do (`interleaving_irrelevant`).
-/

namespace BenchTables

variable {rows rows' : List Measurement} {id id' : String} {m m' : Measurement}

namespace Arithmetic

variable (A : Arithmetic)

/-! ## Two entries -/

theorem enter_cons_of_lt {key : String} (h : id < key) (t : Tally) (rest : Ledger) :
    A.enter id m ((key, t) :: rest) = (id, A.addRow (Tally.start m) m) :: (key, t) :: rest := by
  rw [enter, if_pos h]

theorem enter_cons_self (t : Tally) (rest : Ledger) :
    A.enter id m ((id, t) :: rest) = (id, A.addRow t m) :: rest := by
  rw [enter, if_neg (lt_irrefl id), if_pos rfl]

theorem enter_cons_of_gt {key : String} (h : key < id) (t : Tally) (rest : Ledger) :
    A.enter id m ((key, t) :: rest) = (key, t) :: A.enter id m rest := by
  rw [enter, if_neg (lt_asymm h), if_neg h.ne']

theorem enter_comm_of_lt (h : id < id') (l : Ledger) :
    A.enter id m (A.enter id' m' l) = A.enter id' m' (A.enter id m l) := by
  induction l with
  | nil =>
    change A.enter id m [(id', _)] = A.enter id' m' [(id, _)]
    rw [enter_cons_of_lt A h, enter_cons_of_gt A h]
    rfl
  | cons entry rest ih =>
    obtain ⟨key, t⟩ := entry
    rcases lt_trichotomy id' key with hlt | rfl | hgt
    · rw [enter_cons_of_lt A hlt, enter_cons_of_lt A h, enter_cons_of_lt A (h.trans hlt),
        enter_cons_of_gt A h, enter_cons_of_lt A hlt]
    · rw [enter_cons_self, enter_cons_of_lt A h, enter_cons_of_lt A h, enter_cons_of_gt A h,
        enter_cons_self]
    · -- The greater identifier is entered further on; the smaller one stands anywhere.
      rw [enter_cons_of_gt A hgt]
      rcases lt_trichotomy id key with hlt | rfl | hgt'
      · rw [enter_cons_of_lt A hlt, enter_cons_of_lt A hlt, enter_cons_of_gt A h,
          enter_cons_of_gt A hgt]
      · rw [enter_cons_self, enter_cons_self, enter_cons_of_gt A h]
      · rw [enter_cons_of_gt A hgt', enter_cons_of_gt A hgt', enter_cons_of_gt A hgt, ih]

theorem enter_comm (h : id ≠ id') (l : Ledger) :
    A.enter id m (A.enter id' m' l) = A.enter id' m' (A.enter id m l) := by
  rcases lt_or_gt_of_ne h with hlt | hgt
  · exact enter_comm_of_lt A hlt l
  · exact (enter_comm_of_lt A hgt l).symm

/-! ## All entries -/

/-- A row can be moved to the front of rows with other identifiers. -/
theorem enterAll_middle {before after : List Measurement}
    (h : ∀ x ∈ before, x.experimentId ≠ m.experimentId) (l : Ledger) :
    A.enterAll l (before ++ m :: after) = A.enterAll l (m :: (before ++ after)) := by
  induction before generalizing l with
  | nil => rfl
  | cons x rest ih =>
    obtain ⟨hx, hrest⟩ := List.forall_mem_cons.mp h
    calc A.enterAll l (x :: rest ++ m :: after)
      _ = A.enterAll (A.enter x.experimentId x l) (m :: (rest ++ after)) := ih hrest _
      _ = A.enterAll (A.enter x.experimentId x (A.enter m.experimentId m l)) (rest ++ after) :=
          congrArg (A.enterAll · (rest ++ after)) (enter_comm A hx.symm l)
      _ = A.enterAll l (m :: (x :: rest ++ after)) := rfl

/-- Lists with the same repetitions come to the same ledger. -/
theorem enterAll_eq (h : SameRepetitions rows rows') (l : Ledger) :
    A.enterAll l rows = A.enterAll l rows' := by
  induction rows generalizing rows' l with
  | nil => rw [h.perm.nil_eq]
  | cons m rest ih =>
    obtain ⟨before, after, rfl, hbefore, hrest⟩ := h.exists_split
    rw [enterAll_middle A hbefore]
    exact ih hrest _

theorem experiments_eq (h : SameRepetitions rows rows') :
    A.experiments rows = A.experiments rows' := by
  rw [experiments, experiments, enterAll_eq A h]

/-! ## Tables -/

theorem bandwidthRows_eq (h : SameRepetitions rows rows') :
    A.bandwidthRows rows = A.bandwidthRows rows' := by
  rw [bandwidthRows, bandwidthRows, experiments_eq A h]

theorem latencyRows_eq (h : SameRepetitions rows rows') :
    A.latencyRows rows = A.latencyRows rows' := by
  rw [latencyRows, latencyRows, experiments_eq A h]

theorem variantTables_eq (h : SameRepetitions rows rows') (v : Variant) :
    A.variantTables rows v = A.variantTables rows' v := by
  -- What is selected of the two lists has the same repetitions again.
  have hsingle : SameRepetitions (select v false rows) (select v false rows') := h.filter _
  have hmulti : SameRepetitions (select v true rows) (select v true rows') := h.filter _
  rw [variantTables, variantTables, bandwidthRows_eq A hsingle, latencyRows_eq A hmulti,
    latencyRows_eq A (hsingle.filter _)]

theorem condense_eq (h : SameRepetitions rows rows') : A.condense rows = A.condense rows' := by
  rw [condense, condense, variantTables_eq A h, variantTables_eq A h]

end Arithmetic

/-! ## With the arithmetic of doubles -/

theorem bandwidthRows_of_sameRepetitions (h : SameRepetitions rows rows') :
    bandwidthRows rows = bandwidthRows rows' := by
  rw [← Arithmetic.bandwidthRows_binary64, ← Arithmetic.bandwidthRows_binary64]
  exact Arithmetic.bandwidthRows_eq _ h

theorem latencyRows_of_sameRepetitions (h : SameRepetitions rows rows') :
    latencyRows rows = latencyRows rows' := by
  rw [← Arithmetic.latencyRows_binary64, ← Arithmetic.latencyRows_binary64]
  exact Arithmetic.latencyRows_eq _ h

/-- The tables of a variant are the same, and so is what is reported of them. -/
theorem variantTables_of_sameRepetitions (h : SameRepetitions rows rows') (v : Variant) :
    Condense.variantTables rows v = Condense.variantTables rows' v := by
  have hsingle : SameRepetitions (select v false rows) (select v false rows') := h.filter _
  have hmulti : SameRepetitions (select v true rows) (select v true rows') := h.filter _
  unfold Condense.variantTables
  dsimp only
  rw [hsingle.perm.length_eq, hmulti.perm.length_eq, bandwidthRows_of_sameRepetitions hsingle,
    latencyRows_of_sameRepetitions hmulti, latencyRows_of_sameRepetitions (hsingle.filter _)]

/-- How the rows of different experiments alternate makes no difference: the experiments, both kinds
of table and the tables of a whole run are the same, refusals and reports with them.  That is so
whatever addition and division are. -/
theorem interleaving_irrelevant (h : SameRepetitions rows rows') :
    (experiments rows = experiments rows' ∧ latencyRows rows = latencyRows rows' ∧
      bandwidthRows rows = bandwidthRows rows' ∧ condense rows = condense rows') ∧
    ∀ A : Arithmetic,
      A.experiments rows = A.experiments rows' ∧ A.latencyRows rows = A.latencyRows rows' ∧
        A.bandwidthRows rows = A.bandwidthRows rows' ∧ A.condense rows = A.condense rows' := by
  refine ⟨⟨?_, latencyRows_of_sameRepetitions h, bandwidthRows_of_sameRepetitions h, ?_⟩, fun A =>
    ⟨A.experiments_eq h, A.latencyRows_eq h, A.bandwidthRows_eq h, A.condense_eq h⟩⟩
  · rw [← Arithmetic.experiments_binary64, ← Arithmetic.experiments_binary64]
    exact Arithmetic.experiments_eq _ h
  · rw [condense, condense, variantTables_of_sameRepetitions h, variantTables_of_sameRepetitions h]

/-- Two repetitions of one configuration, and after them two of another, which has rate zero. -/
def separateRows : List Measurement :=
  [sizedMeasurement 1024 32 64,
    { sizedMeasurement 1024 32 64 with bandwidth := Vector.replicate 12 7.25 },
    { sizedMeasurement 4096 32 64 with rate := 0 },
    { sizedMeasurement 4096 32 64 with rate := 0, latency := Vector.replicate 6 1000.0 }]

/-- The same repetitions, those of the two configurations by turns. -/
def alternatingRows : List Measurement :=
  [{ sizedMeasurement 4096 32 64 with rate := 0 }, sizedMeasurement 1024 32 64,
    { sizedMeasurement 4096 32 64 with rate := 0, latency := Vector.replicate 6 1000.0 },
    { sizedMeasurement 1024 32 64 with bandwidth := Vector.replicate 12 7.25 }]

theorem interleaving_irrelevant_alternatingRows :
    SameRepetitions separateRows alternatingRows ∧ separateRows ≠ alternatingRows ∧
      latencyRows separateRows = latencyRows alternatingRows ∧
      bandwidthRows separateRows = bandwidthRows alternatingRows ∧
      condense separateRows = condense alternatingRows := by
  have hsame : SameRepetitions separateRows alternatingRows := by decide +kernel
  obtain ⟨⟨-, hlatency, hbandwidth, hcondense⟩, -⟩ := interleaving_irrelevant hsame
  exact ⟨hsame, by decide +kernel, hlatency, hbandwidth, hcondense⟩

end BenchTables
