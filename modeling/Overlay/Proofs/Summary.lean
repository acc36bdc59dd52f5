/-
What a summary shows.

A summary is made of two views of a table, the global declarations and those of the modules, and
leaves out what it takes to have nothing to show: a module's own stub, and all that is in a module
without members.  So no signature gets lost, and as no declaration stands in both views, none is
shown twice.

* `Line.headed_declarations`, `Line.headed_modules` — the signatures in the lines of either view;
* `Table.perm_shown` — the two views have the signatures of all declarations;
* `Table.summedUp_ofDeclarations` — a summary shows all of a table;
* `Command.Invocation.output_summedUp` — the command prints that summary.
-/
import Overlay.Command.Run
import Overlay.Proofs.Views

namespace Overlay

/-! ### What is to be shown -/

/-- The signatures of a declaration, each with the key of the declaration and the name of its
member. -/
def Declaration.shown (d : Declaration) : List (Key × String × Signature) :=
  d.members.flatMap fun m => m.signatures.map fun s => (d.key, m.name, s)

namespace Line

/-- The key in the header of an interface. -/
def interface? : Line → Option Key
  | interface key => some key
  | overload .. => none
  | module .. => none

/-- The name of a module, and whether it is marked as opaque. -/
def module? : Line → Option (String × Bool)
  | interface _ => none
  | overload .. => none
  | module name isOpaque => some (name, isOpaque)

/-- The signatures in lines, each with the key in the header of the interface that it stands under,
if it stands under one, and with the name in front of it. -/
def headed : Option Key → List Line → List (Option Key × String × Signature)
  | _, [] => []
  | _, interface key :: lines => headed (some key) lines
  | header?, overload _ member s :: lines => (header?, member, s) :: headed header? lines
  | _, module _ _ :: lines => headed none lines

end Line

/-- Lines show all of a table. -/
structure Table.SummedUp (table : Table) (lines : List Line) : Prop where
  /-- Each signature of each declaration has a line of its own, under the header of its declaration,
  and there are no further ones. -/
  signatures : (Line.headed none lines).Perm
    ((table.declarations.flatMap Declaration.shown).map (Prod.map some id))
  /-- The headers are those of the global declarations, and of the declarations that are listed in a
  module which is not opaque. -/
  interfaces : lines.filterMap Line.interface? = (table.globals ++
    (table.modules.filter fun view => !view.isOpaque).flatMap ModuleView.declarations).map
      Declaration.key
  modules : lines.filterMap Line.module? = table.modules.map fun view => (view.name, view.isOpaque)
  isOpaque : ∀ view ∈ table.modules, view.isOpaque = true
    ↔ ∀ d ∈ table.declarations, d.key.scope = .ambient view.name → d.members = []

/-! ### Signatures under their headers -/

namespace Line

/-- Whatever stands above a declaration, its signatures stand under its own header. -/
theorem headed_lines (d : Declaration) (header? : Option Key) (lines : List Line) :
    headed header? (d.lines ++ lines)
      = d.shown.map (Prod.map some id) ++ headed (some d.key) lines := by
  -- no line of an overload changes the header above it
  have hoverloads : ∀ ps : List (String × Overload),
      headed (some d.key) ((ps.map fun p => overload d.key p.1 p.2.signature) ++ lines)
        = (ps.map fun p => (some d.key, p.1, p.2.signature)) ++ headed (some d.key) lines := by
    intro ps
    induction ps with
    | nil => rfl
    | cons p ps ih => exact congrArg (List.cons _) ih
  have hshown : d.overloads.map (fun p => (some d.key, p.1, p.2.signature))
      = d.shown.map (Prod.map some id) := by
    rw [Declaration.overloads, Declaration.shown, List.map_flatMap, List.map_flatMap]
    refine List.flatMap_congr fun m _ => ?_
    rw [Member.signatures, List.map_map, List.map_map, List.map_map]
    rfl
  rw [← hshown, ← hoverloads]
  rfl

/-- Behind declarations, what follows has to have headers of its own. -/
theorem headed_declarations {lines : List Line}
    (h : ∀ header?, headed header? lines = headed none lines) (ds : List Declaration)
    (header? : Option Key) :
    headed header? (ds.flatMap Declaration.lines ++ lines)
      = (ds.flatMap Declaration.shown).map (Prod.map some id) ++ headed none lines := by
  induction ds generalizing header? with
  | nil => exact h header?
  | cons d ds ih =>
    rw [List.flatMap_cons, List.append_assoc, headed_lines, ih, List.flatMap_cons, List.map_append,
      List.append_assoc]

theorem headed_modules (views : List ModuleView) (header? : Option Key) :
    headed header? (views.flatMap ModuleView.lines)
      = ((views.flatMap ModuleView.declarations).flatMap Declaration.shown).map
        (Prod.map some id) := by
  induction views generalizing header? with
  | nil => cases header? <;> rfl
  | cons view views ih =>
    -- each module starts with a line of its own, whatever stands above it
    have hrest : ∀ header?, headed header? (views.flatMap ModuleView.lines)
        = headed none (views.flatMap ModuleView.lines) := fun header? =>
      (ih header?).trans (ih none).symm
    rw [List.flatMap_cons, List.flatMap_cons, List.flatMap_append, List.map_append, ← ih none,
      ModuleView.lines, List.cons_append, headed]
    split
    next hempty =>
      -- what is left out of an opaque module has no signatures
      have hnone : view.declarations.flatMap Declaration.shown = [] := by
        rw [List.flatMap_eq_nil_iff]
        intro d hd
        have hmembers : d.members = [] :=
          List.isEmpty_iff.mp (List.all_eq_true.mp hempty d hd)
        rw [Declaration.shown, hmembers, List.flatMap_nil]
      rw [hnone]
      rfl
    next => exact headed_declarations hrest _ _

end Line

/-! ### Headers -/

theorem Declaration.interfaces_lines (ds : List Declaration) :
    (ds.flatMap lines).filterMap Line.interface? = ds.map key := by
  have hlines : ∀ d : Declaration, d.lines.filterMap Line.interface? = [d.key] := by
    intro d
    have hoverloads : (d.overloads.map fun p => Line.overload d.key p.1 p.2.signature).filterMap
        Line.interface? = [] := by
      rw [List.filterMap_map]
      exact List.filterMap_eq_nil_iff.mpr fun _ _ => rfl
    exact congrArg (List.cons d.key) hoverloads
  rw [List.filterMap_flatMap, List.map_eq_flatMap]
  exact List.flatMap_congr fun d _ => hlines d

theorem Declaration.modules_lines (ds : List Declaration) :
    (ds.flatMap lines).filterMap Line.module? = [] := by
  rw [List.filterMap_eq_nil_iff]
  intro line hline
  obtain ⟨d, -, hline⟩ := List.mem_flatMap.mp hline
  rcases List.mem_cons.mp hline with rfl | hline
  · rfl
  · obtain ⟨p, -, rfl⟩ := List.mem_map.mp hline
    rfl

namespace ModuleView

theorem interfaces_lines (views : List ModuleView) :
    (views.flatMap lines).filterMap Line.interface?
      = ((views.filter fun view => !view.isOpaque).flatMap declarations).map Declaration.key := by
  induction views with
  | nil => rfl
  | cons view views ih =>
    rw [List.flatMap_cons, List.filterMap_append, ih, lines, List.filterMap_cons_none rfl]
    by_cases hempty : view.isOpaque
    · rw [if_pos hempty, List.filter_cons_of_neg (by simp [hempty])]
      rfl
    · rw [if_neg hempty, List.filter_cons_of_pos (by simp [hempty]), List.flatMap_cons,
        List.map_append, Declaration.interfaces_lines]

theorem modules_lines (views : List ModuleView) :
    (views.flatMap lines).filterMap Line.module?
      = views.map fun view => (view.name, view.isOpaque) := by
  induction views with
  | nil => rfl
  | cons view views ih =>
    have hinside : (if view.isOpaque then [] else
        view.declarations.flatMap Declaration.lines).filterMap Line.module? = [] := by
      split
      · rfl
      · exact Declaration.modules_lines _
    rw [List.flatMap_cons, List.filterMap_append, ih]
    exact congrArg (List.cons (view.name, view.isOpaque) · ++ _) hinside

end ModuleView

/-! ### Summaries -/

namespace Table

/-- A declaration that no view shows has no signatures, so that the views have all of them. -/
theorem perm_shown (ds : List Declaration) (diagnostics : List Diagnostic) :
    (((ofDeclarations ds diagnostics).globals
        ++ (modulesOf ds).flatMap ModuleView.declarations).flatMap Declaration.shown).Perm
      (ds.flatMap Declaration.shown) := by
  have hunlisted : ∀ d ∈ ds, isListed d = false → d.shown = [] := by
    intro d _ hd
    have hown : d.IsOwnStub := not_not.mp (mt (isListed_iff d).mpr (ne_true_of_eq_false hd))
    rw [Declaration.shown, hown.members_eq_nil, List.flatMap_nil]
  have hperm := (listed_perm ds diagnostics).flatMap_right Declaration.shown
  rwa [flatMap_filter_of_eq_nil hunlisted] at hperm

/-- The summary of a table shows all of it, whatever declarations the table is made of. -/
theorem summedUp_ofDeclarations (ds : List Declaration) (diagnostics : List Diagnostic) :
    (ofDeclarations ds diagnostics).SummedUp (ofDeclarations ds diagnostics).summary where
  signatures := by
    -- first the global interfaces, then those of the modules
    have hmodules := Line.headed_modules (modulesOf ds)
    have hheaded := Line.headed_declarations
      (fun header? => (hmodules header?).trans (hmodules none).symm)
      (ofDeclarations ds diagnostics).globals none
    have hperm := (perm_shown ds diagnostics).map (Prod.map some id)
    rw [hmodules, ← List.map_append, ← List.flatMap_append] at hheaded
    rw [← hheaded] at hperm
    exact hperm
  interfaces := by
    rw [summary, List.filterMap_append, Declaration.interfaces_lines, ModuleView.interfaces_lines,
      List.map_append]
  modules := by
    rw [summary, List.filterMap_append, Declaration.modules_lines, ModuleView.modules_lines]
    rfl
  isOpaque _ hview := isOpaque_iff hview

end Table

namespace Command.Invocation

/-- Where nothing is asked for by name, the command prints the summary, line by line, and the
summary shows all of the table: each signature of each declaration once, the headers of what has
any to show, and all modules. -/
theorem output_summedUp {inv : Invocation} (hformat : inv.format = .summary)
    (hglobals : inv.globals = []) (hmodules : inv.modules = []) (options : Options)
    (merged : Merged) :
    let table := Table.ofMerged options merged
    inv.output table = .ok (Line.render table.summary) ∧ table.SummedUp table.summary := by
  refine ⟨?_, Table.summedUp_ofDeclarations _ _⟩
  rw [output, hglobals, hmodules, hformat]
  rfl

end Command.Invocation

/-! ### A table of all sorts -/

/-- A global interface with two overloads and one without members, a module with its own stub and an
interface, and two opaque modules: a stub alone, and an interface without members. -/
def Registry.ofAllSorts : Registry :=
  let site : Site := ⟨"a.d.ts", 0⟩
  let taking (type : Ty) : Member := .single "f" ⟨[.required "x" type], .any⟩ site
  .ofList [.interface (.ofGlobal "Foo") site [taking .string, taking (.unresolved "Bar")],
    .stub "m" site, .interface ⟨.ambient "m", "Bar"⟩ site [taking .void],
    .interface (.ofGlobal "Empty") site [], .stub "n" site,
    .interface ⟨.ambient "o", "Empty"⟩ site []]

/-- The stubs and what is in opaque modules have no lines of their own, and no signature is lost. -/
theorem Command.Invocation.output_summedUp_ofAllSorts :
    let table := Table.ofMerged .standard (.ofRegistry .standard .ofAllSorts)
    (Invocation.plain.format = .summary ∧ Invocation.plain.globals = []
      ∧ Invocation.plain.modules = [])
    ∧ Invocation.plain.output table = .ok (
        "interface Foo\n  f(x: string) => any\n  f(x: \"m\".Bar) => any\ninterface Empty\n" ++
        "module \"m\"\ninterface \"m\".Bar\n  f(x: void) => any\n" ++
        "module \"n\" (opaque)\nmodule \"o\" (opaque)\n")
    ∧ table.SummedUp table.summary := by
  intro table
  obtain ⟨houtput, hsummedUp⟩ := output_summedUp (rfl : Invocation.plain.format = .summary) rfl rfl
    .standard (.ofRegistry .standard .ofAllSorts)
  refine ⟨⟨rfl, rfl, rfl⟩, houtput.trans (congrArg Except.ok ?_), hsummedUp⟩
  decide +kernel

end Overlay
