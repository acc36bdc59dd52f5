/-
Tables without their sites.

Sites tell where something was declared, and nothing else is made of them, but that reports are
withdrawn by site.  Leaving sites out may therefore come before or after almost every step:

* `Overload.firsts_map_unsited` — which overloads are kept does not depend on sites;
* `Declaration.unsited_ruled` — nor does what names stand for;
* `Table.unsited_ofDeclarations` — nor do the views of modules and the indexes of a table;
* `Lookup.map_unsited_ruleReports`, `Merge.map_unsited_furtherReport?` — nor what is reported.
-/
import Overlay.Proofs.Table

namespace Overlay

/-! ### Leaving sites out -/

/-- The site that stands where none is known. -/
def Site.nowhere : Site :=
  ⟨"", 0⟩

def Overload.unsited (o : Overload) : Overload :=
  { o with site := .nowhere }

def Member.unsited (m : Member) : Member :=
  { m with overloads := m.overloads.map Overload.unsited }

/-- The declaration without the sites that contribute to it, and with no site in its overloads. -/
def Declaration.unsited (d : Declaration) : Declaration where
  key := d.key
  body := match d.body with
    | .stub => .stub
    | .interface members => .interface (members.map Member.unsited)
  sites := []

def ModuleView.unsited (view : ModuleView) : ModuleView :=
  { view with declarations := view.declarations.map Declaration.unsited }

def Diagnostic.Related.unsited (related : Related) : Related :=
  { related with site := .nowhere }

def Diagnostic.unsited (report : Diagnostic) : Diagnostic :=
  { report with site := .nowhere, related := report.related.map Related.unsited }

/-- The table without sites; its indexes have none. -/
def Table.unsited (table : Table) : Table :=
  { table with
    declarations := table.declarations.map Declaration.unsited
    modules := table.modules.map ModuleView.unsited
    diagnostics := table.diagnostics.map Diagnostic.unsited }

/-- An overload with the name of its member, without its site. -/
def Overload.unsitedPair (p : String × Overload) : String × Overload :=
  (p.1, p.2.unsited)

/-! ### Overloads -/

namespace Overload

theorem isIn_unsited (o : Overload) (os : List Overload) :
    o.unsited.isIn (os.map unsited) = o.isIn os := by
  rw [isIn, isIn, List.any_map]
  rfl

theorem firsts_map_unsited (os : List Overload) :
    firsts (os.map unsited) = (firsts os).map unsited := by
  induction os using List.reverseRecOn with
  | nil => rfl
  | append_singleton os o ih =>
    rw [List.map_append, List.map_singleton, firsts_concat, firsts_concat, isIn_unsited, ih]
    split
    · rfl
    · rw [List.map_append, List.map_singleton]

end Overload

theorem Merge.named_map_unsitedPair (name : String) (ps : List (String × Overload)) :
    named name (ps.map Overload.unsitedPair) = (named name ps).map Overload.unsited := by
  rw [named, named, List.filter_map, List.map_map, List.map_map]
  rfl

/-! ### Declarations -/

namespace Declaration

theorem members_unsited (d : Declaration) : d.unsited.members = d.members.map Member.unsited := by
  obtain ⟨key, body, sites⟩ := d
  cases body <;> rfl

theorem isStub_unsited (d : Declaration) : d.unsited.isStub = d.isStub := by
  obtain ⟨key, body, sites⟩ := d
  cases body <;> rfl

/-- What comes in the place of names, and which overloads are kept then, does not depend on
sites. -/
theorem unsited_ruled (rule : Scope → String → Ty) (d : Declaration) :
    (d.ruled rule).unsited = d.unsited.ruled rule := by
  obtain ⟨key, body, sites⟩ := d
  cases body with
  | stub => rfl
  | interface ms =>
    have hmember : ∀ m : Member, Member.unsited ⟨m.name, Overload.firsts (m.overloads.map fun o =>
          ⟨o.signature.replace (rule key.scope), o.site⟩)⟩
        = ⟨m.unsited.name, Overload.firsts (m.unsited.overloads.map fun o =>
          ⟨o.signature.replace (rule key.scope), o.site⟩)⟩ := by
      intro m
      rw [Member.unsited, Member.unsited, ← Overload.firsts_map_unsited, List.map_map, List.map_map]
      rfl
    rw [ruled, unsited, unsited, ruled]
    simp only [List.map_map, Function.comp_def, hmember]

end Declaration

/-! ### Tables -/

namespace Table

theorem unsited_ofDeclarations (ds : List Declaration) (reports : List Diagnostic) :
    (ofDeclarations ds reports).unsited
      = ofDeclarations (ds.map Declaration.unsited) (reports.map Diagnostic.unsited) := by
  rw [ofDeclarations_map Declaration.unsited (fun _ => rfl) Declaration.isStub_unsited]
  rfl

end Table

/-! ### Reports -/

theorem Lookup.map_unsited_ruleReports (keys : List Key) (acrossModules : Bool)
    (ds : List Declaration) : (ruleReports keys acrossModules ds).map Diagnostic.unsited
      = ruleReports keys acrossModules (ds.map Declaration.unsited) := by
  rw [ruleReports, ruleReports, List.flatMap_map, List.map_flatMap]
  refine List.flatMap_congr fun d _ => ?_
  rw [d.members_unsited, List.flatMap_map, List.map_flatMap]
  refine List.flatMap_congr fun m _ => ?_
  rw [Member.unsited, List.flatMap_map, List.map_flatMap]
  refine List.flatMap_congr fun o _ => ?_
  rw [List.map_map]
  rfl

theorem Merge.map_unsited_furtherReport? (key : Key) (name : String) (o : Overload)
    (earlier : List Overload) : (furtherReport? key name o earlier).map Diagnostic.unsited
      = furtherReport? key name o.unsited (earlier.map Overload.unsited) := by
  rw [furtherReport?_eq, furtherReport?_eq, Overload.firsts_map_unsited]
  generalize Overload.firsts earlier = others
  cases others with
  | nil => rfl
  | cons leading rest =>
    rw [List.map_cons, Overload.ambiguity?, Overload.ambiguity?, ← List.map_cons,
      Overload.isIn_unsited]
    split
    · rfl
    · rw [Option.map_some, Overload.ambiguity, Overload.ambiguity, List.length_map]
      rfl

end Overlay
