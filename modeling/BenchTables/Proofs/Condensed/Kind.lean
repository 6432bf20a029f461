import BenchTables.Command.Aggregate
import BenchTables.Proofs.Condensed.RoundTrip
import BenchTables.Proofs.Condensed.Tables
import BenchTables.Proofs.Files.Writing

/-!
# The files of the tables of a run

The tables that aggregating writes have files of their own (`apart_path`), and every identifier in
them is that of an experiment, with no white space around it (`TableSet.Holds.trim_id_bandwidth`,
`TableSet.Holds.trim_id_multiClient`).
-/

namespace BenchTables

open Files

namespace TableKind

theorem suffix_injective : Function.Injective suffix := by
  intro a b h
  rcases a with a | a | a <;> rcases b with b | b | b <;> cases a <;> cases b <;>
    first | rfl | exact absurd h (by decide)

theorem namesFile_suffix (kind : TableKind) : NamesFile kind.suffix := by
  rcases kind with v | v | v <;> cases v <;> decide

theorem apart_path {a b : TableKind} (h : a ≠ b) (stem : String) :
    Apart (a.path stem) (b.path stem) :=
  apart_suffixed (namesFile_suffix a) (namesFile_suffix b) fun heq => h (suffix_injective heq)

end TableKind

theorem nodup_writtenKinds (singleClient : Bool) : (writtenKinds singleClient).Nodup := by
  cases singleClient <;> decide

theorem TableSet.output_path (tables : TableSet) (stem : String) (kind : TableKind) :
    (tables.output stem kind).path = kind.path stem := by
  cases kind <;> rfl

theorem apart_outputs (tables : TableSet) (stem : String) (singleClient : Bool) :
    ((writtenKinds singleClient).map (tables.output stem)).Pairwise fun a b =>
      Apart a.path b.path := by
  refine List.pairwise_map.mpr ((nodup_writtenKinds singleClient).imp fun {a b} hne => ?_)
  rw [TableSet.output_path, TableSet.output_path]
  exact TableKind.apart_path hne stem

/-! ## Identifiers in tables -/

theorem trim_id_of_mem_experiments {rows : List Measurement} {e : Experiment}
    (h : e ∈ experiments rows) : Text.trim e.id = e.id := by
  obtain ⟨m, -, hm⟩ := exists_row_of_mem_experiments h
  rw [← hm]
  exact m.trim_experimentId

namespace TableSet.Holds

variable {tables : TableSet} {rows : List Measurement}

theorem trim_id_bandwidth (h : tables.Holds rows) (v : Variant) :
    ∀ row ∈ (tables.of v).bandwidth, Text.trim row.id = row.id := by
  intro row hrow
  obtain ⟨e, he, rfl⟩ := List.mem_map.mp ((h.bandwidth v).mem_iff.mp hrow)
  exact trim_id_of_mem_experiments (List.mem_filter.mp he).1

theorem trim_id_multiClient (h : tables.Holds rows) (v : Variant) :
    ∀ row ∈ (tables.of v).multiClient, Text.trim row.id = row.id := by
  intro row hrow
  obtain ⟨e, he, rfl⟩ := List.mem_map.mp ((h.multiClient v).mem_iff.mp hrow)
  exact trim_id_of_mem_experiments (List.mem_filter.mp he).1

end TableSet.Holds

end BenchTables
