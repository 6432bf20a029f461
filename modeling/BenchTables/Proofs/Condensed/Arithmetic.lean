import BenchTables.Proofs.Condensed.Tables

/-!
# Condensing with any arithmetic

The same tables are made here with an addition and a division that may be any operations on doubles
(`Arithmetic`).  With those of doubles they are the tables of the program (`experiments_binary64`,
`bandwidthRows_binary64`, `latencyRows_binary64`, `condense_binary64`), so that what holds with any
arithmetic holds of the program and owes nothing to the laws of rounding.
-/

namespace BenchTables

/-- An addition and a division of doubles, of which nothing is known. -/
structure Arithmetic where
  add : Float → Float → Float
  div : Float → Float → Float

namespace Arithmetic

/-- The operations of doubles. -/
def binary64 : Arithmetic := ⟨(· + ·), (· / ·)⟩

variable (A : Arithmetic)

/-! ## Figures of a row -/

def sumFrom (start : Float) (xs : List Float) : Float :=
  xs.foldl A.add start

def bandwidthTotal (m : Measurement) : Float :=
  A.div (A.sumFrom (-0.0) (Counter.totalTerms.map m.counter)) 1024.0

def latencySeconds (m : Measurement) : PerPhase Float :=
  m.latency.map (A.div · 1000000.0)

def latencyTotal (m : Measurement) : Float :=
  A.div (A.sumFrom (-0.0) m.latency.toList) 1000000.0

/-! ## Experiments -/

def addRow (t : Tally) (m : Measurement) : Tally :=
  { t with
    repetitions := t.repetitions + 1
    dbSize := A.add t.dbSize m.dbSize.toFloat
    rate := A.add t.rate m.rate.toFloat
    bandwidthTotal := A.add t.bandwidthTotal (A.bandwidthTotal m)
    latency := t.latency.zipWith A.add (A.latencySeconds m)
    latencyTotal := A.add t.latencyTotal (A.latencyTotal m) }

def mean (t : Tally) (id : String) : Experiment :=
  let n := Float.ofNat t.repetitions
  { t.mean id with
    dbSize := A.div t.dbSize n
    rate := A.div t.rate n
    bandwidthTotal := A.div t.bandwidthTotal n
    latency := t.latency.map (A.div · n)
    latencyTotal := A.div t.latencyTotal n }

def enter (id : String) (m : Measurement) : Ledger → Ledger
  | [] => [(id, A.addRow (Tally.start m) m)]
  | (key, tally) :: rest =>
    if id < key then (id, A.addRow (Tally.start m) m) :: (key, tally) :: rest
    else if id = key then (key, A.addRow tally m) :: rest
    else (key, tally) :: enter id m rest

def enterAll (ledger : Ledger) (rows : List Measurement) : Ledger :=
  rows.foldl (fun l m => A.enter m.experimentId m l) ledger

def experiments (rows : List Measurement) : List Experiment :=
  (A.enterAll [] rows).map fun (id, tally) => A.mean tally id

/-! ## Tables -/

def bandwidthRow (e : Experiment) : Except CondenseError BandwidthRow :=
  if e.rate == 0.0 then .error (.zeroRate e.id)
  else .ok ⟨e.id, e.dbSizeEntries, e.rateRequests,
    #v[e.bandwidthTotal, A.div e.bandwidthTotal e.rate]⟩

def bandwidthRows (rows : List Measurement) : Except CondenseError (List BandwidthRow) :=
  ((A.experiments rows).mergeSort Experiment.sizeRateLE).mapM A.bandwidthRow

def latencyRows (rows : List Measurement) : List LatencyRow :=
  ((A.experiments rows).mergeSort Experiment.sizeLE).map Experiment.latencyRow

def variantTables (rows : List Measurement) (variant : Variant) :
    Except CondenseError VariantTables :=
  (A.bandwidthRows (select variant false rows)).map fun bandwidth =>
    ⟨bandwidth, A.latencyRows (select variant true rows),
      A.latencyRows ((select variant false rows).filter fun m => m.rate = 1)⟩

def condense (rows : List Measurement) : Except CondenseError TableSet := do
  let noAuth ← A.variantTables rows .noAuth
  let auth ← A.variantTables rows .auth
  return { noAuth, auth }

/-! ## The arithmetic of doubles -/

theorem enter_binary64 (id : String) (m : Measurement) (l : Ledger) :
    binary64.enter id m l = l.enter id m := by
  induction l with
  | nil => rfl
  | cons entry rest ih =>
    rw [enter, Ledger.enter, ih]
    rfl

theorem enterAll_binary64 (l : Ledger) (rows : List Measurement) :
    binary64.enterAll l rows = l.enterAll rows := by
  induction rows generalizing l with
  | nil => rfl
  | cons m rest ih =>
    change binary64.enterAll (binary64.enter m.experimentId m l) rest = _
    rw [ih, enter_binary64]
    rfl

theorem experiments_binary64 (rows : List Measurement) :
    binary64.experiments rows = BenchTables.experiments rows := by
  rw [experiments, enterAll_binary64]
  rfl

theorem bandwidthRows_binary64 (rows : List Measurement) :
    binary64.bandwidthRows rows = BenchTables.bandwidthRows rows := by
  rw [bandwidthRows, experiments_binary64]
  rfl

theorem latencyRows_binary64 (rows : List Measurement) :
    binary64.latencyRows rows = BenchTables.latencyRows rows := by
  rw [latencyRows, experiments_binary64]
  rfl

theorem condense_binary64 (rows : List Measurement) :
    binary64.condense rows = (BenchTables.condense rows).outcome := by
  have htables : ∀ v, binary64.variantTables rows v = (Condense.variantTables rows v).outcome := by
    intro v
    rw [variantTables_outcome, variantTables, bandwidthRows_binary64, latencyRows_binary64,
      latencyRows_binary64]
  rw [condense, htables, htables, BenchTables.condense, Traced.outcome_bind]
  refine congrArg _ (funext fun noAuth => ?_)
  rw [Traced.outcome_bind]
  rfl

end Arithmetic

end BenchTables
