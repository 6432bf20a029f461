/-!
# Counters and phases

A benchmark run counts the bytes of twelve transfers and times six phases of the protocol. Both
lists have one order, that of the columns of a measurement table, and a value per counter or phase
is a vector in that order, read by `PerCounter.value` and `PerPhase.value`.
-/

namespace BenchTables

/-- The byte counters of a run, in column order. -/
inductive Counter where
  | sendRetrievalUp
  | sendRetrievalDown
  | sendNotifyUp
  | sendNotifyDown
  | recvGetNotifiedUp
  | recvGetNotifiedDown
  | recvRetrievalUp
  | recvRetrievalDown
  | recvNotifyUp
  | recvNotifyDown
  | sendGetNotifiedUp
  | sendGetNotifiedDown
deriving DecidableEq, Repr

namespace Counter

/-- Every counter, in column order. -/
def ordered : Vector Counter 12 :=
  #v[sendRetrievalUp, sendRetrievalDown, sendNotifyUp, sendNotifyDown, recvGetNotifiedUp,
    recvGetNotifiedDown, recvRetrievalUp, recvRetrievalDown, recvNotifyUp, recvNotifyDown,
    sendGetNotifiedUp, sendGetNotifiedDown]

def all : List Counter := ordered.toList

/-- The terms of the bandwidth total; the download of the sender's notifications counts twice. -/
def totalTerms : List Counter :=
  sendGetNotifiedDown :: all

def index : Counter → Fin 12
  | sendRetrievalUp => 0
  | sendRetrievalDown => 1
  | sendNotifyUp => 2
  | sendNotifyDown => 3
  | recvGetNotifiedUp => 4
  | recvGetNotifiedDown => 5
  | recvRetrievalUp => 6
  | recvRetrievalDown => 7
  | recvNotifyUp => 8
  | recvNotifyDown => 9
  | sendGetNotifiedUp => 10
  | sendGetNotifiedDown => 11

def column : Counter → String
  | sendRetrievalUp => "BW_SendPIRUp"
  | sendRetrievalDown => "BW_SendPIRDown"
  | sendNotifyUp => "BW_SendNotifyUp"
  | sendNotifyDown => "BW_SendNotifyDown"
  | recvGetNotifiedUp => "BW_RecvGetNotifiedUp"
  | recvGetNotifiedDown => "BW_RecvGetNotifiedDown"
  | recvRetrievalUp => "BW_RecvPIRUp"
  | recvRetrievalDown => "BW_RecvPIRDown"
  | recvNotifyUp => "BW_RecvNotifyUp"
  | recvNotifyDown => "BW_RecvNotifyDown"
  | sendGetNotifiedUp => "BW_SendGetNotifiedUp"
  | sendGetNotifiedDown => "BW_SendGetNotifiedDown"

@[simp] theorem getElem_ordered_index (c : Counter) : ordered[c.index] = c := by
  cases c <;> rfl

theorem mem_all (c : Counter) : c ∈ all := by
  cases c <;> simp [all, ordered]

end Counter

/-- The timed phases of a run, in column order. -/
inductive Phase where
  | sendRetrieval
  | sendNotify
  | recvGetNotified
  | recvRetrieval
  | recvNotify
  | sendGetNotified
deriving DecidableEq, Repr

namespace Phase

def ordered : Vector Phase 6 :=
  #v[sendRetrieval, sendNotify, recvGetNotified, recvRetrieval, recvNotify, sendGetNotified]

def all : List Phase := ordered.toList

def index : Phase → Fin 6
  | sendRetrieval => 0
  | sendNotify => 1
  | recvGetNotified => 2
  | recvRetrieval => 3
  | recvNotify => 4
  | sendGetNotified => 5

def column : Phase → String
  | sendRetrieval => "RT_SendPIR"
  | sendNotify => "RT_SendNotify"
  | recvGetNotified => "RT_RecvGetNotified"
  | recvRetrieval => "RT_RecvPIR"
  | recvNotify => "RT_RecvNotify"
  | sendGetNotified => "RT_SendGetNotified"

@[simp] theorem getElem_ordered_index (p : Phase) : ordered[p.index] = p := by
  cases p <;> rfl

theorem mem_all (p : Phase) : p ∈ all := by
  cases p <;> simp [all, ordered]

end Phase

/-- A value for each counter, in column order. -/
abbrev PerCounter (α : Type) := Vector α 12

def PerCounter.value {α : Type} (v : PerCounter α) (c : Counter) : α :=
  v[c.index]

theorem PerCounter.value_ordered {α : Type} (v : PerCounter α) (i : Fin 12) :
    PerCounter.value v Counter.ordered[i] = v[i] := by
  have hindex : ∀ i : Fin 12, Counter.ordered[i].index = i := by decide
  exact congrArg (fun j : Fin 12 => v[j]) (hindex i)

abbrev PerPhase (α : Type) := Vector α 6

def PerPhase.value {α : Type} (v : PerPhase α) (p : Phase) : α :=
  v[p.index]

theorem PerPhase.value_ordered {α : Type} (v : PerPhase α) (i : Fin 6) :
    PerPhase.value v Phase.ordered[i] = v[i] := by
  have hindex : ∀ i : Fin 6, Phase.ordered[i].index = i := by decide
  exact congrArg (fun j : Fin 6 => v[j]) (hindex i)

end BenchTables
