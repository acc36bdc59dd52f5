/-
What a log holds.

A log counts its errors while diagnostics come in, and counts them anew when some are dropped.  So
after every step the count is that of the entries.  The entries themselves can be told from the steps
alone: a diagnostic is there if the step that brought it is followed only by steps that spare it.

* `Diagnostic.Log.Counted.apply` — a step keeps the count right;
* `Diagnostic.Log.entries_apply` — what a step leaves, and what it brings;
* `Diagnostic.Log.entries_foldl_apply` — the entries after any steps;
* `Diagnostic.Log.reflects_run` — after any run, a log holds what is left, and counts its errors.
-/
import Overlay.Diagnostic.Log
import Mathlib.Data.List.Basic

namespace Overlay.Diagnostic.Log

/-! ### Steps -/

/-- A step in which a log is changed. -/
inductive Step where
  | add (d : Diagnostic)
  | append (ds : List Diagnostic)
  | keep (test : Diagnostic → Bool)
  /-- A new log takes the place of the one before. -/
  | ofList (ds : List Diagnostic)

namespace Step

def apply (log : Log) : Step → Log
  | add d => log.add d
  | append ds => log.append ds
  | keep test => log.keep test
  | ofList ds => .ofList ds

/-- The diagnostics that a step brings. -/
def brought : Step → List Diagnostic
  | add d => [d]
  | append ds => ds
  | keep _ => []
  | ofList ds => ds

/-- Whether a diagnostic that was there before a step is there after it. -/
def spares (d : Diagnostic) : Step → Bool
  | add _ => true
  | append _ => true
  | keep test => test d
  | ofList _ => false

end Step

/-- The log after some steps. -/
def run (steps : List Step) : Log :=
  steps.foldl Step.apply empty

/-- What is left after some steps: in the order of the steps, the diagnostics that each of them
brought and all later ones spared. -/
def left : List Step → List Diagnostic
  | [] => []
  | step :: later => step.brought.filter (fun d => later.all (Step.spares d)) ++ left later

/-- A log holds diagnostics in order, with the count of errors among them. -/
structure Reflects (log : Log) (ds : List Diagnostic) : Prop where
  entries : log.entries = ds
  errorCount : log.errorCount = ds.countP fun d => d.severity = .error
  hasErrors : log.hasErrors = true ↔ ∃ d ∈ ds, d.severity = .error
  ofKind : ∀ kind, log.ofKind kind = ds.filter fun d => d.kind = kind

/-! ### The count of errors -/

/-- The errors among the entries are as many as were counted. -/
def Counted (log : Log) : Prop :=
  log.errorCount = log.entries.countP isError

namespace Counted

variable {log : Log}

theorem add (h : log.Counted) (d : Diagnostic) : (log.add d).Counted := by
  have hcount : log.errorCount = log.entries.countP isError := h
  rw [Counted, entries_add, List.countP_append, List.countP_singleton, ← hcount]
  show (if d.isError then log.errorCount + 1 else log.errorCount) = _
  by_cases hd : d.isError <;> simp [hd]

theorem append (h : log.Counted) (ds : List Diagnostic) : (log.append ds).Counted := by
  induction ds generalizing log with
  | nil => exact h
  | cons d ds ih => exact ih (h.add d)

theorem empty : Log.empty.Counted :=
  rfl

theorem ofList (ds : List Diagnostic) : (Log.ofList ds).Counted :=
  empty.append ds

/-- No step makes the count wrong; where entries are dropped, they are counted anew. -/
theorem apply (h : log.Counted) (step : Step) : (step.apply log).Counted := by
  cases step with
  | add d => exact h.add d
  | append ds => exact h.append ds
  | keep test => rfl
  | ofList ds => exact ofList ds

theorem hasErrors_iff (h : log.Counted) :
    log.hasErrors = true ↔ ∃ d ∈ log.entries, d.isError = true := by
  rw [hasErrors, decide_eq_true_iff, h, List.countP_pos_iff]

end Counted

theorem hasErrors_ofList (ds : List Diagnostic) :
    (ofList ds).hasErrors = true ↔ ∃ d ∈ ds, d.isError = true := by
  rw [(Counted.ofList ds).hasErrors_iff, entries_ofList]

theorem counted_foldl_apply {log : Log} (h : log.Counted) (steps : List Step) :
    (steps.foldl Step.apply log).Counted := by
  induction steps generalizing log with
  | nil => exact h
  | cons step steps ih => exact ih (h.apply step)

/-! ### The entries -/

/-- A step leaves those entries that it spares, and puts behind them what it brings. -/
theorem entries_apply (log : Log) (step : Step) :
    (step.apply log).entries
      = log.entries.filter (fun d => step.spares d) ++ step.brought := by
  cases step with
  | add d => simp only [Step.apply, Step.brought, Step.spares, entries_add, List.filter_true]
  | append ds => simp only [Step.apply, Step.brought, Step.spares, entries_append, List.filter_true]
  | keep test => exact (List.append_nil _).symm
  | ofList ds => simp only [Step.apply, Step.brought, Step.spares, entries_ofList,
      List.filter_false, List.nil_append]

/-- Steps leave those entries that all of them spare; behind them is what is left of the steps. -/
theorem entries_foldl_apply (log : Log) (steps : List Step) :
    (steps.foldl Step.apply log).entries
      = log.entries.filter (fun d => steps.all (Step.spares d)) ++ left steps := by
  induction steps generalizing log with
  | nil => simp only [List.foldl_nil, List.all_nil, List.filter_true, left, List.append_nil]
  | cons step later ih =>
    -- what was there before has to be spared by this step and by all later ones
    have hboth : (log.entries.filter fun d => step.spares d).filter
          (fun d => later.all (Step.spares d))
        = log.entries.filter fun d => (step :: later).all (Step.spares d) := by
      rw [List.filter_filter]
      refine List.filter_congr fun d _ => ?_
      rw [List.all_cons, Bool.and_comm]
    rw [List.foldl_cons, ih, entries_apply, List.filter_append, hboth, left, List.append_assoc]

/-- After any steps, a log holds the diagnostics that are left, in order, and counts the errors among
them. -/
theorem reflects_run (steps : List Step) : (run steps).Reflects (left steps) := by
  have hentries : (run steps).entries = left steps := entries_foldl_apply .empty steps
  have hcounted : (run steps).Counted := counted_foldl_apply .empty steps
  have hisError : ∀ d : Diagnostic, d.isError = true ↔ d.severity = .error := fun d =>
    beq_iff_eq
  refine ⟨hentries, ?_, ?_, fun kind => ?_⟩
  · rw [hcounted, hentries]
    exact List.countP_congr fun d _ => by rw [hisError, decide_eq_true_iff]
  · rw [hcounted.hasErrors_iff, hentries]
    simp only [hisError]
  · rw [ofKind, hentries]
    rfl

end Overlay.Diagnostic.Log
