import BenchTables.Measurement.Reader
import BenchTables.Proofs.Outcome

/-!
# What is read of a measurement table

Only numbers are read as counters and times: `Measurement.isFinite_of_readTable`.
-/

namespace BenchTables

/-- All that was counted and timed is a number. -/
structure Measurement.IsFinite (m : Measurement) : Prop where
  counter : ∀ c, (m.counter c).isFinite
  phase : ∀ p, (PerPhase.value m.latency p).isFinite

variable {text source column : String} {header : List String} {record : Csv.Record} {x : Float}
  {m : Measurement} {rows : List Measurement}

theorem isFinite_of_readQuantity? (h : readQuantity? text = some x) : x.isFinite := by
  unfold readQuantity? at h
  split at h
  · split at h
    next hfinite =>
      cases h
      exact hfinite
    next => cases h
  · cases h

namespace Measurement

theorem isFinite_of_readNumber (h : readNumber header record column = .ok x) : x.isFinite := by
  unfold readNumber readCell at h
  dsimp only at h
  split at h
  next hread =>
    cases h
    exact isFinite_of_readQuantity? hread
  next => cases h

theorem isFinite_of_ofRecord (h : ofRecord header record = .ok m) : m.IsFinite := by
  unfold ofRecord at h
  obtain ⟨bandwidth, hbandwidth, h⟩ := bind_eq_ok_iff.mp h
  obtain ⟨latency, hlatency, h⟩ := bind_eq_ok_iff.mp h
  obtain ⟨dbSize, -, h⟩ := bind_eq_ok_iff.mp h
  obtain ⟨keyLength, -, h⟩ := bind_eq_ok_iff.mp h
  obtain ⟨valueLength, -, h⟩ := bind_eq_ok_iff.mp h
  obtain ⟨malicious, -, h⟩ := bind_eq_ok_iff.mp h
  obtain ⟨rate, -, h⟩ := bind_eq_ok_iff.mp h
  obtain ⟨multiClient, -, h⟩ := bind_eq_ok_iff.mp h
  obtain ⟨threads, -, h⟩ := bind_eq_ok_iff.mp h
  cases h
  exact ⟨fun c => isFinite_of_readNumber (getElem_of_mapM_eq_ok hbandwidth c.index.isLt),
    fun p => isFinite_of_readNumber (getElem_of_mapM_eq_ok hlatency p.index.isLt)⟩

theorem isFinite_of_ofRecords {records : List (Except Csv.Fault Csv.Record)}
    (h : ofRecords header records = .ok rows) : ∀ m ∈ rows, m.IsFinite := by
  induction records generalizing rows with
  | nil =>
    cases h
    exact fun m hm => by cases hm
  | cons entry rest ih =>
    cases entry with
    | error fault => cases h
    | ok record =>
      unfold ofRecords at h
      split at h
      · exact ih h
      · obtain ⟨row, hrow, h⟩ := bind_eq_ok_iff.mp h
        obtain ⟨others, hothers, h⟩ := bind_eq_ok_iff.mp h
        cases h
        exact List.forall_mem_cons.mpr ⟨isFinite_of_ofRecord hrow, ih hothers⟩

theorem isFinite_of_readTable {bytes : List UInt8} (h : readTable source bytes = .ok rows) :
    ∀ m ∈ rows, m.IsFinite := by
  unfold readTable at h
  obtain ⟨doc, -, h⟩ := bind_eq_ok_iff.mp h
  unfold ofDocument at h
  obtain ⟨_, -, h⟩ := bind_eq_ok_iff.mp h
  exact isFinite_of_ofRecords h

end Measurement

end BenchTables
