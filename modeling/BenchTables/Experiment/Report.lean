import BenchTables.Condensed.Row
import BenchTables.Experiment.Group
import BenchTables.Json.Value

/-!
# Reports of experiments

Experiments and condensed rows as JSON values: an array with an object for each. The phases of an
experiment are an object keyed by their columns; the members of a row are named by the columns of
its table.
-/

namespace BenchTables

namespace Experiment

def latencyValue (latency : PerPhase Float) : Json.Value :=
  .object (Phase.all.map fun p => (p.column, .ofFloat (PerPhase.value latency p)))

def value (e : Experiment) : Json.Value :=
  .object [
    ("expid", .text e.id),
    ("variant", .text e.variant.label),
    ("multi_client", .bool e.multiClient),
    ("key_length", .integer e.keyLength.toNat),
    ("value_length", .integer e.valueLength.toNat),
    ("num_threads", .integer e.threads.toNat),
    ("repetitions", .integer e.repetitions),
    ("db_size", .ofFloat e.dbSize),
    ("rate", .ofFloat e.rate),
    ("bw_total", .ofFloat e.bandwidthTotal),
    ("latency", latencyValue e.latency),
    ("rt_total", .ofFloat e.latencyTotal)]

def report (es : List Experiment) : Json.Value :=
  .array (es.map value)

end Experiment

namespace CondensedRow

def value {n : Nat} (schema : Schema n) (row : CondensedRow n) : Json.Value :=
  let quantities := schema.quantities.toList.zip (row.quantities.toList.map .ofFloat)
  .object ([
    ("EXPID", .text row.id),
    ("db_size", .integer row.dbSize.toNat),
    ("rate", .integer row.rate.toNat)] ++ quantities)

def report {n : Nat} (schema : Schema n) (rows : List (CondensedRow n)) : Json.Value :=
  .array (rows.map (value schema))

end CondensedRow

end BenchTables
