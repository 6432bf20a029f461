import BenchTables.Proofs.Experiment.Grouping

/-!
# Experiments and configurations

An experiment averages all rows with its identifier, and the identifier runs the digits of the three
sizes together.  So rows of different configurations can meet in one experiment
(`configurations_meet`).  An experiment is one configuration exactly when the sizes of its rows have
the same numbers of digits, and exactly when the lengths that it reports are those of every row
(`experiment_is_configuration_iff`).
-/

namespace BenchTables

open Decimal

/-- The columns of a measurement that say what was measured. -/
structure Configuration where
  dbSize : UInt64
  keyLength : UInt64
  valueLength : UInt64
  malicious : Bool
  rate : UInt64
  multiClient : Bool
  threads : UInt64
deriving DecidableEq

namespace Measurement

def configuration (m : Measurement) : Configuration :=
  ⟨m.dbSize, m.keyLength, m.valueLength, m.malicious, m.rate, m.multiClient, m.threads⟩

/-- The numbers of digits of the first two sizes.  That of the third is what they leave over. -/
def sizeWidths (m : Measurement) : ℕ × ℕ :=
  ((wordText m.dbSize).toList.length, (wordText m.keyLength).toList.length)

variable {a b : Measurement}

/-! ## Sizes and their digits -/

theorem sizes_eq_of_widths (hdigits : a.sizeDigits = b.sizeDigits)
    (hwidths : a.sizeWidths = b.sizeWidths) :
    a.dbSize = b.dbSize ∧ a.keyLength = b.keyLength ∧ a.valueLength = b.valueLength := by
  obtain ⟨hdb, hkey⟩ := Prod.mk.inj hwidths
  unfold sizeDigits at hdigits
  -- The digits are taken apart from the left, a width at a time.
  rw [List.append_assoc, List.append_assoc] at hdigits
  obtain ⟨hdbSize, hrest⟩ := List.append_inj hdigits hdb
  obtain ⟨hkeyLength, hvalueLength⟩ := List.append_inj hrest hkey
  exact ⟨wordText_injective hdbSize, wordText_injective hkeyLength,
    wordText_injective hvalueLength⟩

theorem dbSize_eq_of_lengths (hdigits : a.sizeDigits = b.sizeDigits)
    (hkey : a.keyLength = b.keyLength) (hvalue : a.valueLength = b.valueLength) :
    a.dbSize = b.dbSize := by
  unfold sizeDigits at hdigits
  rw [hkey, hvalue] at hdigits
  apply wordText_injective
  exact List.append_cancel_right (List.append_cancel_right hdigits)

theorem configuration_eq_of_widths (hid : a.experimentId = b.experimentId)
    (hwidths : a.sizeWidths = b.sizeWidths) : a.configuration = b.configuration := by
  obtain ⟨hdigits, hmalicious, hrate, hmulti, hthreads⟩ := (experimentId_eq_iff a b).mp hid
  obtain ⟨hdb, hkey, hvalue⟩ := sizes_eq_of_widths hdigits hwidths
  unfold configuration
  rw [hdb, hkey, hvalue, hmalicious, hrate, hmulti, hthreads]

theorem sizeWidths_eq_of_configuration (h : a.configuration = b.configuration) :
    a.sizeWidths = b.sizeWidths := by
  have hdb := congrArg Configuration.dbSize h
  have hkey := congrArg Configuration.keyLength h
  change a.dbSize = b.dbSize at hdb
  change a.keyLength = b.keyLength at hkey
  rw [sizeWidths, sizeWidths, hdb, hkey]

/-- Rows of one identifier and equal lengths have the size of the database in common too. -/
theorem sizeWidths_eq_of_lengths (hid : a.experimentId = b.experimentId)
    (hkey : a.keyLength = b.keyLength) (hvalue : a.valueLength = b.valueLength) :
    a.sizeWidths = b.sizeWidths := by
  obtain ⟨hdigits, -⟩ := (experimentId_eq_iff a b).mp hid
  rw [sizeWidths, sizeWidths, dbSize_eq_of_lengths hdigits hkey hvalue, hkey]

end Measurement

/-! ## Experiments -/

variable {rows : List Measurement} {e : Experiment} {m : Measurement}

theorem mem_ownRows_iff {id : String} : m ∈ ownRows id rows ↔ m ∈ rows ∧ m.experimentId = id := by
  simp [ownRows]

theorem experimentId_eq_of_mem_ownRows {id : String} {a b : Measurement} (ha : a ∈ ownRows id rows)
    (hb : b ∈ ownRows id rows) : a.experimentId = b.experimentId :=
  (mem_ownRows_iff.mp ha).2.trans (mem_ownRows_iff.mp hb).2.symm

/-- The rows of one experiment have one rate, which their identifier tells. -/
theorem rate_eq_of_mem_ownRows {id : String} :
    ∀ a ∈ ownRows id rows, ∀ b ∈ ownRows id rows, a.rate = b.rate := by
  intro a ha b hb
  exact ((Measurement.experimentId_eq_iff a b).mp (experimentId_eq_of_mem_ownRows ha hb)).2.2.1

/-- Of the rows of one experiment all are of databases without entries or none is, which the first
digit of their identifier tells. -/
theorem dbSize_eq_zero_iff_of_mem_ownRows {id : String} {a b : Measurement}
    (ha : a ∈ ownRows id rows) (hb : b ∈ ownRows id rows) : a.dbSize = 0 ↔ b.dbSize = 0 := by
  have hfirst : ∀ m : Measurement, m.sizeDigits.head? = some '0' ↔ m.dbSize = 0 := by
    intro m
    obtain ⟨first, rest, hdigits⟩ :=
      List.exists_cons_of_ne_nil (Decimal.digits_ne_nil m.dbSize.toNat)
    have hzero := Decimal.head?_digits_eq_zero_iff m.dbSize.toNat
    rw [Measurement.sizeDigits, Decimal.wordText, Decimal.natText_toList, hdigits]
    rw [hdigits] at hzero
    exact hzero.trans (UInt64.toNat_inj (b := 0))
  have hdigits := ((Measurement.experimentId_eq_iff a b).mp
    (experimentId_eq_of_mem_ownRows ha hb)).1
  rw [← hfirst a, ← hfirst b, hdigits]

/-- What an experiment reports of its configuration is that of one of its rows. -/
theorem exists_reported_row (he : e ∈ experiments rows) :
    ∃ first ∈ ownRows e.id rows, e.variant = first.variant ∧ e.multiClient = first.multiClient ∧
      e.keyLength = first.keyLength ∧ e.valueLength = first.valueLength ∧
        e.threads = first.threads := by
  obtain ⟨first, hfirst, hreported⟩ := (isMeanOf_of_mem_experiments he).first
  exact ⟨first, List.mem_of_mem_head? hfirst, hreported⟩

/-- All rows that an experiment averages have its variant, its kind of client and its threads, one
rate and one row of digits for their sizes.  They are of one configuration exactly when their sizes
are of one width each, and exactly when the lengths that the experiment reports are those of every
row. -/
theorem experiment_is_configuration_iff (he : e ∈ experiments rows) :
    e.IsMeanOf (ownRows e.id rows) ∧
    (∀ m ∈ ownRows e.id rows,
      e.variant = m.variant ∧ e.multiClient = m.multiClient ∧ e.threads = m.threads) ∧
    (∀ a ∈ ownRows e.id rows, ∀ b ∈ ownRows e.id rows,
      a.rate = b.rate ∧ a.sizeDigits = b.sizeDigits) ∧
    ((∀ a ∈ ownRows e.id rows, ∀ b ∈ ownRows e.id rows, a.configuration = b.configuration) ↔
      ∀ a ∈ ownRows e.id rows, ∀ b ∈ ownRows e.id rows, a.sizeWidths = b.sizeWidths) ∧
    ((∀ a ∈ ownRows e.id rows, ∀ b ∈ ownRows e.id rows, a.configuration = b.configuration) ↔
      ∀ m ∈ ownRows e.id rows, e.keyLength = m.keyLength ∧ e.valueLength = m.valueLength) := by
  obtain ⟨first, hfirst, hvariant, hmulti, hkey, hvalue, hthreads⟩ := exists_reported_row he
  have hids : ∀ a ∈ ownRows e.id rows, ∀ b ∈ ownRows e.id rows, a.experimentId = b.experimentId :=
    fun a ha b hb => experimentId_eq_of_mem_ownRows ha hb
  refine ⟨isMeanOf_of_mem_experiments he, fun m hm => ?_, fun a ha b hb => ?_, ⟨?_, ?_⟩, ⟨?_, ?_⟩⟩
  · obtain ⟨-, hmalicious, -, hclient, hthread⟩ :=
      (Measurement.experimentId_eq_iff first m).mp (hids first hfirst m hm)
    rw [hvariant, hmulti, hthreads, Measurement.variant, Measurement.variant, hmalicious]
    exact ⟨rfl, hclient, hthread⟩
  · obtain ⟨hdigits, -, hrate, -⟩ := (Measurement.experimentId_eq_iff a b).mp (hids a ha b hb)
    exact ⟨hrate, hdigits⟩
  · intro h a ha b hb
    exact Measurement.sizeWidths_eq_of_configuration (h a ha b hb)
  · intro h a ha b hb
    exact Measurement.configuration_eq_of_widths (hids a ha b hb) (h a ha b hb)
  · -- The reported lengths are those of the first row, and so of every row like it.
    intro h m hm
    have hconfig := h first hfirst m hm
    exact ⟨hkey.trans (congrArg Configuration.keyLength hconfig),
      hvalue.trans (congrArg Configuration.valueLength hconfig)⟩
  · intro h a ha b hb
    apply Measurement.configuration_eq_of_widths (hids a ha b hb)
    apply Measurement.sizeWidths_eq_of_lengths (hids a ha b hb)
    · exact (h a ha).1.symm.trans (h b hb).1
    · exact (h a ha).2.symm.trans (h b hb).2

/-- A measurement that is told by its sizes alone. -/
def sizedMeasurement (dbSize keyLength valueLength : UInt64) : Measurement :=
  ⟨dbSize, keyLength, valueLength, false, 1, false, 1, Vector.replicate 12 512.5,
    Vector.replicate 6 2500.0⟩

/-- Two repetitions of one configuration, and one of another that is as wide. -/
def alignedRows : List Measurement :=
  [sizedMeasurement 1024 32 64, sizedMeasurement 4096 32 64,
    { sizedMeasurement 1024 32 64 with latency := Vector.replicate 6 1000.0 }]

theorem experiment_is_configuration_iff_alignedRows :
    ∃ e ∈ experiments alignedRows, e.repetitions = 2 ∧
      ∀ m ∈ ownRows e.id alignedRows,
        e.keyLength = m.keyLength ∧ e.valueLength = m.valueLength := by
  obtain ⟨e, he, hrepetitions⟩ : ∃ e ∈ experiments alignedRows, e.repetitions = 2 := by
    decide +kernel
  refine ⟨e, he, hrepetitions, ?_⟩
  obtain ⟨-, -, -, hwidths, hreported⟩ := experiment_is_configuration_iff he
  have haligned : ∀ a ∈ alignedRows, ∀ b ∈ alignedRows, a.sizeWidths = b.sizeWidths := by
    decide +kernel
  apply hreported.mp
  apply hwidths.mpr
  intro a ha b hb
  exact haligned a (mem_ownRows_iff.mp ha).1 b (mem_ownRows_iff.mp hb).1

/-- Two configurations between which a digit moves from one size to the next. -/
def meetingRows : List Measurement :=
  [sizedMeasurement 1024 32 64, sizedMeasurement 10243 2 64]

/-- Rows of different configurations are averaged as one experiment, of a size of the database that
neither has and with the length of keys that only the first has. -/
theorem configurations_meet :
    ∃ e ∈ experiments meetingRows, ownRows e.id meetingRows = meetingRows ∧
      e.dbSize = 5633.5 ∧ e.keyLength = 32 ∧
      ∃ a ∈ meetingRows, ∃ b ∈ meetingRows, a.configuration ≠ b.configuration ∧
        e.keyLength ≠ b.keyLength := by
  decide +kernel

end BenchTables
