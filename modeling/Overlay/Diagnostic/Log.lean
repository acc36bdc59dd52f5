/-
Collections of diagnostics.

A log keeps diagnostics in the order in which they come, and counts the errors among them as they
come.

* `Log.entries_append` — nothing is lost or moved.
-/
import Overlay.Diagnostic.Basic

namespace Overlay.Diagnostic

/-- Diagnostics in order, and the number of errors among them. -/
structure Log where
  entries : List Diagnostic
  errorCount : Nat
deriving DecidableEq, Repr

namespace Log

def empty : Log :=
  ⟨[], 0⟩

def add (log : Log) (d : Diagnostic) : Log :=
  ⟨log.entries ++ [d], if d.isError then log.errorCount + 1 else log.errorCount⟩

def append (log : Log) (ds : List Diagnostic) : Log :=
  ds.foldl add log

def ofList (ds : List Diagnostic) : Log :=
  empty.append ds

/-- Keeps the diagnostics that pass a test, and counts the errors among them anew. -/
def keep (log : Log) (test : Diagnostic → Bool) : Log :=
  let kept := log.entries.filter test
  ⟨kept, kept.countP isError⟩

def ofKind (log : Log) (kind : Kind) : List Diagnostic :=
  log.entries.filter fun d => d.kind == kind

def hasErrors (log : Log) : Bool :=
  decide (0 < log.errorCount)

@[simp] theorem entries_add (log : Log) (d : Diagnostic) :
    (log.add d).entries = log.entries ++ [d] := rfl

@[simp] theorem entries_append (log : Log) (ds : List Diagnostic) :
    (log.append ds).entries = log.entries ++ ds := by
  induction ds generalizing log with
  | nil => simp [append]
  | cons d ds ih => simpa [append] using ih (log.add d)

@[simp] theorem entries_ofList (ds : List Diagnostic) : (ofList ds).entries = ds := by
  simp [ofList, empty]

end Log

end Overlay.Diagnostic
