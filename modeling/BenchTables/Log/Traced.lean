import BenchTables.Log.Entry

/-!
# Computations that report progress

A traced computation leaves log entries on its way to a result or an error, and keeps those it
left before the error. The laws below say that the result of a sequence of steps does not depend
on what the steps report, and that the reports stand in the order of the steps.
-/

namespace BenchTables

structure Traced (ε α : Type) where
  log : List LogEntry
  outcome : Except ε α

namespace Traced

/-- One step after another; an error ends the sequence. -/
def andThen {ε α β : Type} (x : Traced ε α) (f : α → Traced ε β) : Traced ε β :=
  match x.outcome with
  | .error e => ⟨x.log, .error e⟩
  | .ok a => ⟨x.log ++ (f a).log, (f a).outcome⟩

instance {ε : Type} : Monad (Traced ε) where
  pure a := ⟨[], .ok a⟩
  bind := andThen

/-- A result or an error without a report. -/
def silent {ε α : Type} (outcome : Except ε α) : Traced ε α := ⟨[], outcome⟩

def report {ε : Type} (entries : List LogEntry) : Traced ε Unit := ⟨entries, .ok ()⟩

def note {ε : Type} (entry : LogEntry) : Traced ε Unit := report [entry]

def mapError {ε δ α : Type} (f : ε → δ) (x : Traced ε α) : Traced δ α :=
  ⟨x.log, x.outcome.mapError f⟩

def map {ε α β : Type} (f : α → β) (x : Traced ε α) : Traced ε β :=
  ⟨x.log, x.outcome.map f⟩

variable {ε δ α β : Type}

@[simp] theorem outcome_pure (a : α) : (pure a : Traced ε α).outcome = .ok a := rfl

@[simp] theorem log_pure (a : α) : (pure a : Traced ε α).log = [] := rfl

@[simp] theorem outcome_silent (r : Except ε α) : (silent r).outcome = r := rfl

@[simp] theorem log_silent (r : Except ε α) : (silent r).log = [] := rfl

@[simp] theorem outcome_report (entries : List LogEntry) :
    (report entries : Traced ε Unit).outcome = .ok () := rfl

@[simp] theorem log_report (entries : List LogEntry) :
    (report entries : Traced ε Unit).log = entries := rfl

@[simp] theorem outcome_mapError (f : ε → δ) (x : Traced ε α) :
    (x.mapError f).outcome = x.outcome.mapError f := rfl

/-- The result of two steps is that of their results in sequence, whatever they report. -/
@[simp] theorem outcome_bind (x : Traced ε α) (f : α → Traced ε β) :
    (x >>= f).outcome = x.outcome >>= fun a => (f a).outcome := by
  show (andThen x f).outcome = _
  unfold andThen
  cases x.outcome <;> rfl

/-- The second step reports after the first, if it is reached. -/
theorem log_bind (x : Traced ε α) (f : α → Traced ε β) :
    (x >>= f).log = match x.outcome with
      | .ok a => x.log ++ (f a).log
      | .error _ => x.log := by
  show (andThen x f).log = _
  unfold andThen
  cases x.outcome <;> rfl

end Traced

end BenchTables
