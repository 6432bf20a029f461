import BenchTables.Proofs.Command.Aggregate
import BenchTables.Proofs.Experiment.Grouping
import BenchTables.Proofs.Json.RoundTrip

/-!
# Reports read back

What a report is, seen from the one who reads it: an array with an object for each experiment, whose
members give back the experiment (`Experiment.IsReportedAs`). A mean that is finite is there bit for
bit, so experiments of finite means are told by their report, and by either of its texts
(`report_lossless`).
-/

namespace BenchTables

open Files Json

namespace Json

/-- The names of the members of an object. -/
def Value.names : Value → List String
  | .object members => members.map Prod.fst
  | _ => []

/-- The value of the first member with a name. -/
def Value.member? (v : Value) (name : String) : Option Value :=
  match v with
  | .object members => members.lookup name
  | _ => none

end Json

/-- A mean is given as itself where it is finite, and as no number where it is not. -/
def IsMeanValue (x : Float) (v : Value) : Prop :=
  (x.isFinite ∧ v = .number x) ∨ (x.isFinite = false ∧ v = .null)

/-- An object has a member of a name with a mean. -/
def HasMean (v : Value) (name : String) (x : Float) : Prop :=
  ∃ w, v.member? name = some w ∧ IsMeanValue x w

namespace Experiment

/-- The members of an object are the fields of an experiment, under their names and in order. -/
structure IsReportedAs (e : Experiment) (v : Value) : Prop where
  names : v.names = ["expid", "variant", "multi_client", "key_length", "value_length",
    "num_threads", "repetitions", "db_size", "rate", "bw_total", "latency", "rt_total"]
  id : v.member? "expid" = some (.text e.id)
  variant : v.member? "variant" = some (.text e.variant.label)
  multiClient : v.member? "multi_client" = some (.bool e.multiClient)
  keyLength : v.member? "key_length" = some (.integer e.keyLength.toNat)
  valueLength : v.member? "value_length" = some (.integer e.valueLength.toNat)
  threads : v.member? "num_threads" = some (.integer e.threads.toNat)
  repetitions : v.member? "repetitions" = some (.integer e.repetitions)
  dbSize : HasMean v "db_size" e.dbSize
  rate : HasMean v "rate" e.rate
  bandwidthTotal : HasMean v "bw_total" e.bandwidthTotal
  latency : ∃ phases, v.member? "latency" = some phases ∧
    phases.names = Phase.all.map Phase.column ∧
    ∀ p : Phase, HasMean phases p.column (PerPhase.value e.latency p)
  latencyTotal : HasMean v "rt_total" e.latencyTotal

/-- All means of an experiment are finite. -/
structure HasFiniteMeans (e : Experiment) : Prop where
  dbSize : e.dbSize.isFinite
  rate : e.rate.isFinite
  bandwidthTotal : e.bandwidthTotal.isFinite
  latency : ∀ p, (PerPhase.value e.latency p).isFinite
  latencyTotal : e.latencyTotal.isFinite

end Experiment

instance : DecidablePred Experiment.HasFiniteMeans := fun e =>
  decidable_of_iff
    (e.dbSize.isFinite ∧ e.rate.isFinite ∧ e.bandwidthTotal.isFinite ∧
      (∀ p ∈ Phase.all, (PerPhase.value e.latency p).isFinite) ∧ e.latencyTotal.isFinite)
    ⟨fun ⟨hsize, hrate, hbandwidth, hlatency, htotal⟩ =>
      ⟨hsize, hrate, hbandwidth, fun p => hlatency p (Phase.mem_all p), htotal⟩,
    fun h => ⟨h.dbSize, h.rate, h.bandwidthTotal, fun p _ => h.latency p, h.latencyTotal⟩⟩

variable {x y : Float} {v : Value} {e f : Experiment}

/-! ## Values -/

theorem isMeanValue_ofFloat (x : Float) : IsMeanValue x (.ofFloat x) := by
  unfold Value.ofFloat
  split
  next h => exact .inl ⟨h, rfl⟩
  next h => exact .inr ⟨Bool.eq_false_iff.mpr h, rfl⟩

theorem IsMeanValue.eq_number (h : IsMeanValue x v) (hx : x.isFinite) : v = .number x := by
  rcases h with ⟨-, hv⟩ | ⟨hinfinite, -⟩
  · exact hv
  · rw [hx] at hinfinite
    cases hinfinite

/-- Two means that are given alike are the same double. -/
theorem IsMeanValue.unique (hx : IsMeanValue x v) (hy : IsMeanValue y v) (hxfin : x.isFinite)
    (hyfin : y.isFinite) : x = y :=
  Value.number.inj ((hx.eq_number hxfin).symm.trans (hy.eq_number hyfin))

theorem isFinite_ofFloat (x : Float) : (Value.ofFloat x).IsFinite := by
  unfold Value.ofFloat
  split
  next h => exact .number h
  next => exact .null

theorem isFinite_latencyValue (latency : PerPhase Float) :
    (Experiment.latencyValue latency).IsFinite := by
  refine .object fun m hm => ?_
  obtain ⟨p, -, rfl⟩ := List.mem_map.mp hm
  exact isFinite_ofFloat _

theorem isFinite_report (es : List Experiment) : (Experiment.report es).IsFinite := by
  refine .array fun v hv => ?_
  obtain ⟨e, -, rfl⟩ := List.mem_map.mp hv
  refine .object ?_
  simp only [List.forall_mem_cons]
  exact ⟨.text _, .text _, .bool _, .integer _, .integer _, .integer _, .integer _,
    isFinite_ofFloat _, isFinite_ofFloat _, isFinite_ofFloat _, isFinite_latencyValue _,
    isFinite_ofFloat _, List.forall_mem_nil _⟩

theorem member?_latencyValue (latency : PerPhase Float) (p : Phase) :
    (Experiment.latencyValue latency).member? p.column =
      some (.ofFloat (PerPhase.value latency p)) := by
  cases p <;> rfl

theorem isReportedAs_value (e : Experiment) : e.IsReportedAs e.value where
  names := rfl
  id := rfl
  variant := rfl
  multiClient := rfl
  keyLength := rfl
  valueLength := rfl
  threads := rfl
  repetitions := rfl
  dbSize := ⟨_, rfl, isMeanValue_ofFloat _⟩
  rate := ⟨_, rfl, isMeanValue_ofFloat _⟩
  bandwidthTotal := ⟨_, rfl, isMeanValue_ofFloat _⟩
  latency := ⟨_, rfl, rfl, fun p => ⟨_, member?_latencyValue _ p, isMeanValue_ofFloat _⟩⟩
  latencyTotal := ⟨_, rfl, isMeanValue_ofFloat _⟩

/-! ## Experiments from their report -/

theorem Variant.label_injective : Function.Injective Variant.label := by
  intro a b h
  cases a with
  | noAuth =>
    cases b with
    | noAuth => rfl
    | auth => exact absurd h (by decide)
  | auth =>
    cases b with
    | noAuth => exact absurd h (by decide)
    | auth => rfl

theorem PerPhase.eq_of_value {a b : PerPhase Float}
    (h : ∀ p, PerPhase.value a p = PerPhase.value b p) : a = b := by
  apply Vector.ext
  intro i hi
  have hphase := h Phase.ordered[i]
  have hleft := PerPhase.value_ordered a ⟨i, hi⟩
  have hright := PerPhase.value_ordered b ⟨i, hi⟩
  exact hleft.symm.trans (hphase.trans hright)

/-- Of two finite means under one name, there is only one. -/
theorem HasMean.unique {name : String} (hx : HasMean v name x) (hy : HasMean v name y)
    (hxfin : x.isFinite) (hyfin : y.isFinite) : x = y := by
  obtain ⟨w, hw, hx⟩ := hx
  obtain ⟨w', hw', hy⟩ := hy
  obtain rfl := Option.some.inj (hw.symm.trans hw')
  exact hx.unique hy hxfin hyfin

theorem Experiment.IsReportedAs.unique (he : e.IsReportedAs v) (hf : f.IsReportedAs v)
    (hefin : e.HasFiniteMeans) (hffin : f.HasFiniteMeans) : e = f := by
  have hid := Value.text.inj (Option.some.inj (he.id.symm.trans hf.id))
  have hvariant := Value.text.inj (Option.some.inj (he.variant.symm.trans hf.variant))
  have hclient := Value.bool.inj (Option.some.inj (he.multiClient.symm.trans hf.multiClient))
  have hkey := Value.integer.inj (Option.some.inj (he.keyLength.symm.trans hf.keyLength))
  have hvalue := Value.integer.inj (Option.some.inj (he.valueLength.symm.trans hf.valueLength))
  have hthreads := Value.integer.inj (Option.some.inj (he.threads.symm.trans hf.threads))
  have hrepetitions :=
    Value.integer.inj (Option.some.inj (he.repetitions.symm.trans hf.repetitions))
  have hlatency : e.latency = f.latency := by
    obtain ⟨phases, hphases, -, he⟩ := he.latency
    obtain ⟨phases', hphases', -, hf⟩ := hf.latency
    obtain rfl := Option.some.inj (hphases.symm.trans hphases')
    -- Each phase has a name of its own in the object that both have under one name.
    exact PerPhase.eq_of_value fun p => (he p).unique (hf p) (hefin.latency p) (hffin.latency p)
  rw [Experiment.mk.injEq]
  exact ⟨hid, Variant.label_injective hvariant, hclient, UInt64.toNat_inj.mp hkey,
    UInt64.toNat_inj.mp hvalue, UInt64.toNat_inj.mp hthreads, hrepetitions,
    he.dbSize.unique hf.dbSize hefin.dbSize hffin.dbSize,
    he.rate.unique hf.rate hefin.rate hffin.rate,
    he.bandwidthTotal.unique hf.bandwidthTotal hefin.bandwidthTotal hffin.bandwidthTotal, hlatency,
    he.latencyTotal.unique hf.latencyTotal hefin.latencyTotal hffin.latencyTotal⟩

/-! ## Reports -/

/-- Both texts of a report are read as an array with the experiments in order. -/
theorem decode_report (es : List Experiment) : ∃ objects,
    decode (compact (Experiment.report es)) = some (.array objects) ∧
    decode (pretty (Experiment.report es)) = some (.array objects) ∧
    List.Forall₂ Experiment.IsReportedAs es objects := by
  have hfinite := isFinite_report es
  refine ⟨es.map Experiment.value, decode_compact hfinite, decode_pretty hfinite, ?_⟩
  exact List.forall₂_map_right_iff.mpr (List.forall₂_same.mpr fun e _ => isReportedAs_value e)

/-- Experiments of finite means are told by what they are reported as. -/
theorem eq_of_forall₂_isReportedAs {es fs : List Experiment} {objects : List Value}
    (hes : List.Forall₂ Experiment.IsReportedAs es objects)
    (hfs : List.Forall₂ Experiment.IsReportedAs fs objects)
    (hesfin : ∀ e ∈ es, e.HasFiniteMeans) (hfsfin : ∀ f ∈ fs, f.HasFiniteMeans) : es = fs := by
  induction hes generalizing fs with
  | nil =>
    cases hfs
    rfl
  | cons he _ ih =>
    cases hfs with
    | cons hf hfs =>
      obtain ⟨hefin, hesfin⟩ := List.forall_mem_cons.mp hesfin
      obtain ⟨hffin, hfsfin⟩ := List.forall_mem_cons.mp hfsfin
      rw [he.unique hf hefin hffin, ih hfs hesfin hfsfin]

/-- Reports lose nothing: what is read from either text gives back the experiments of the rows, by
ascending identifiers; the text that inspecting gives is one of these texts; and experiments of
finite means are the same if one of their texts is. -/
theorem report_lossless :
    (∀ rows : List Measurement, ∃ objects,
      decode (compact (Experiment.report (experiments rows))) = some (.array objects) ∧
      decode (pretty (Experiment.report (experiments rows))) = some (.array objects) ∧
      List.Forall₂ Experiment.IsReportedAs (experiments rows) objects ∧
      (experiments rows).Pairwise fun e f => e.id < f.id) ∧
    (∀ repetitions input read text, (inspectText repetitions input read).outcome = .ok text ↔
      repetitions ≠ some 0 ∧ ∃ bytes rows, tableBytes input (read input) = .ok bytes ∧
        Measurement.readTable input bytes = .ok rows ∧
        text = pretty (Experiment.report (experiments (inspectedRows repetitions rows)))) ∧
    (∀ es fs : List Experiment, (∀ e ∈ es, e.HasFiniteMeans) → (∀ f ∈ fs, f.HasFiniteMeans) →
      compact (Experiment.report es) = compact (Experiment.report fs) ∨
        pretty (Experiment.report es) = pretty (Experiment.report fs) → es = fs) := by
  refine ⟨fun rows => ?_, fun repetitions input read text => ?_, fun es fs hesfin hfsfin h => ?_⟩
  · obtain ⟨objects, hcompact, hpretty, hobjects⟩ := decode_report (experiments rows)
    exact ⟨objects, hcompact, hpretty, hobjects, pairwise_id_experiments rows⟩
  · have hfound : (inspectText repetitions input read).outcome = .ok text ↔
        ∃ found, (inspectRows repetitions input read).outcome = .ok found ∧
          text = pretty (Experiment.report found) := by
      rw [inspectText, Traced.outcome_bind, bind_eq_ok_iff]
      simp only [Traced.outcome_pure, Except.ok.injEq, eq_comm]
    rw [hfound]
    simp only [inspectRows_eq_ok_iff]
    constructor
    · rintro ⟨found, ⟨hrep, bytes, rows, hbytes, hrows, rfl⟩, htext⟩
      exact ⟨hrep, bytes, rows, hbytes, hrows, htext⟩
    · rintro ⟨hrep, bytes, rows, hbytes, hrows, htext⟩
      exact ⟨_, ⟨hrep, bytes, rows, hbytes, hrows, rfl⟩, htext⟩
  · obtain ⟨objects, hes, hes', heach⟩ := decode_report es
    obtain ⟨objects', hfs, hfs', heach'⟩ := decode_report fs
    -- One text is read as one array, and the array tells the experiments.
    have hsame : objects = objects' := by
      rcases h with h | h
      · exact Value.array.inj (Option.some.inj (hes.symm.trans ((congrArg decode h).trans hfs)))
      · exact Value.array.inj (Option.some.inj (hes'.symm.trans ((congrArg decode h).trans hfs')))
    exact eq_of_forall₂_isReportedAs heach (hsame ▸ heach') hesfin hfsfin

/-- Rows of two experiments, the second of them first. -/
def timedRows : List Measurement :=
  [⟨1024, 32, 64, true, 1, false, 1, Vector.replicate 12 512.0, Vector.replicate 6 0.3⟩,
    ⟨1024, 32, 64, true, 0, false, 1, Vector.replicate 12 512.0, Vector.replicate 6 2500.0⟩]

theorem report_lossless_timedRows :
    (∀ e ∈ experiments timedRows, e.HasFiniteMeans) ∧
    (∀ e ∈ experiments timedRows.reverse, e.HasFiniteMeans) ∧
    compact (Experiment.report (experiments timedRows)) =
      compact (Experiment.report (experiments timedRows.reverse)) ∧
    experiments timedRows = experiments timedRows.reverse := by
  have hfinite : ∀ e ∈ experiments timedRows, e.HasFiniteMeans := by decide +kernel
  have hreverse : ∀ e ∈ experiments timedRows.reverse, e.HasFiniteMeans := by decide +kernel
  have htext : compact (Experiment.report (experiments timedRows)) =
      compact (Experiment.report (experiments timedRows.reverse)) := by decide +kernel
  exact ⟨hfinite, hreverse, htext, report_lossless.2.2 _ _ hfinite hreverse (.inl htext)⟩

end BenchTables
