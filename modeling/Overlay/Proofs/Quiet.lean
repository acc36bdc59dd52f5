/-
Building without reports on overloads.

Whether a further overload is reported is up to the options.  They are asked where an overload is
taken in, in the innermost step of a merge, and what was reported there goes through the lookup of
names, where some of it is withdrawn.  Two builds that differ in this option alone are compared
stage by stage: they make the same table, but that one of them has no reports on overloads.

* `Merge.members_quiet` — the same overloads are taken in;
* `Merge.reports_quiet` — of the reports on a key, those on malformed signatures are left;
* `Merged.resolve_without` — looking names up, and withdrawing reports, goes on as before;
* `Table.ofRegistry_eq_without` — the two tables.
-/
import Overlay.Proofs.Cuts

namespace Overlay

/-- The options with reports on overloads, or without. -/
def Options.reporting (options : Options) (reportOverloads : Bool) : Options :=
  { options with reportOverloads }

/-- What was merged, without the reports of a kind. -/
def Merged.without (kind : Diagnostic.Kind) (merged : Merged) : Merged :=
  { merged with diagnostics := merged.diagnostics.filter fun report => report.kind ≠ kind }

/-! ### A key -/

namespace Merge

variable (options : Options) (key : Key)

/-- Whether overloads are reported or not, the same ones are taken in. -/
theorem members_quiet (sound : List Declaration) : members (options.reporting false) key sound
    = ⟨(members (options.reporting true) key sound).members, []⟩ := by
  rw [members, members, foldl_take, foldl_take]
  rfl

theorem join_quiet (sound : List Declaration) :
    join (options.reporting false) key sound = join (options.reporting true) key sound := by
  rw [join, join, members_quiet]

theorem declaration?_quiet (sites : List Declaration) :
    declaration? (options.reporting false) key sites
      = declaration? (options.reporting true) key sites := by
  rw [declaration?, declaration?]
  cases sites.filter Declaration.isSound with
  | nil => rfl
  | cons first rest => exact congrArg some (join_quiet options key (first :: rest))

/-- What is reported while overloads are taken in are overloads and nothing else. -/
theorem kind_of_mem_members {sound : List Declaration} {report : Diagnostic}
    (h : report ∈ (members options key sound).reports) : report.kind = .overloadAmbiguity := by
  rw [members, foldl_take] at h
  split at h
  · rw [reports_foldl_add] at h
    exact kind_of_mem_furtherReports h
  · exact absurd h List.not_mem_nil

theorem reports_quiet (sites : List Declaration) : reports (options.reporting false) key sites
    = (reports (options.reporting true) key sites).filter fun report =>
        report.kind ≠ .overloadAmbiguity := by
  have hmalformed : (sites.flatMap Declaration.malformed).filter (fun report =>
      report.kind ≠ .overloadAmbiguity) = sites.flatMap Declaration.malformed := by
    have hkind : ∀ report ∈ sites.flatMap Declaration.malformed,
        report.kind = .malformedSignature := by
      intro report hreport
      obtain ⟨d, -, hd⟩ := List.mem_flatMap.mp hreport
      rw [malformed_eq rfl] at hd
      exact kind_of_mem_malformedReports hd
    exact Diagnostic.filter_kind_ne_eq_self hkind (by decide)
  have hfurther : (members (options.reporting true) key
      (sites.filter Declaration.isSound)).reports.filter (fun report =>
        report.kind ≠ .overloadAmbiguity) = [] :=
    Diagnostic.filter_kind_ne_eq_nil fun _ => kind_of_mem_members _ key
  rw [reports, reports, List.filter_append, hmalformed, hfurther, members_quiet]

end Merge

/-! ### A build -/

theorem Merged.ofRegistry_quiet (options : Options) (registry : Registry) :
    ofRegistry (options.reporting false) registry
      = (ofRegistry (options.reporting true) registry).without .overloadAmbiguity := by
  rw [ofRegistry, ofRegistry, without]
  simp only [Merge.declaration?_quiet, Merge.reports_quiet, List.filter_flatMap]

/-- Which overloads collapse does not depend on reports, so that those on overloads can be left out
before names are looked up or after. -/
theorem Merged.resolve_without (options : Options) (merged : Merged) :
    (merged.without .overloadAmbiguity).resolve (options.reporting false)
      = (merged.resolve (options.reporting true)).without .overloadAmbiguity := by
  have hunknown : (Lookup.ruleReports merged.keys options.acrossModules merged.declarations).filter
      (fun report => report.kind ≠ .overloadAmbiguity)
      = Lookup.ruleReports merged.keys options.acrossModules merged.declarations :=
    Diagnostic.filter_kind_ne_eq_self (fun _ => Lookup.kind_of_mem_ruleReports) (by decide)
  have hdiagnostics : ((merged.without .overloadAmbiguity).resolve
      (options.reporting false)).diagnostics
      = (merged.resolve (options.reporting true)).diagnostics.filter fun report =>
          report.kind ≠ .overloadAmbiguity := by
    rw [diagnostics_resolve_eq, diagnostics_resolve_eq, List.filter_append, List.filter_comm]
    exact congrArg _ hunknown.symm
  show (⟨_, _⟩ : Merged) = ⟨_, _⟩
  exact congrArg _ hdiagnostics

/-- Without reports on overloads the same table is built, less these reports. -/
theorem Table.ofRegistry_eq_without (options : Options) (registry : Registry) :
    ofRegistry { options with reportOverloads := false } registry
      = (ofRegistry { options with reportOverloads := true } registry).without
          .overloadAmbiguity := by
  show ofMerged (options.reporting false) (.ofRegistry (options.reporting false) registry) = _
  rw [ofMerged, Merged.ofRegistry_quiet, Merged.resolve_without]
  rfl

/-- Two overloads, one of which names a type that is not declared. -/
example :
    let taking (type : String) : WrittenSignature := ⟨[.required "x" (some (.named type))], none⟩
    let fragment : Fragment := ⟨"index.d.ts",
      [.member "Foo" "f" (taking "string") none, .member "Foo" "f" (taking "A") none]⟩
    let kinds (reportOverloads : Bool) : List Diagnostic.Kind :=
      let table := Table.ofRegistry { Options.bare with reportOverloads }
        (Registry.empty.addFragment fragment)
      table.diagnostics.map Diagnostic.kind
    kinds true = [.overloadAmbiguity, .unknownType] ∧ kinds false = [.unknownType] := by
  decide +kernel

end Overlay
