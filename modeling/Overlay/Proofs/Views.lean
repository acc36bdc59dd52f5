/-
Views and indexes of a table.

A table shows its declarations in several ways: one after the other, by their keys, the global ones,
and those of each module.  All of these are made beforehand, each in its own way, and all of them
agree:

* `Table.modulesOf_eq` — the views of modules are parts of the list of declarations;
* `Table.module?_ofDeclarations` — a name leads to the view of its module;
* `Table.listed_perm` — the global ones and those of modules are all but the modules' own stubs;
* `Table.agrees_ofRegistry` — in the table of any registry, all views agree with the list.
-/
import Overlay.Proofs.Order
import Overlay.Proofs.Table
import Mathlib.Data.List.Nodup

namespace Overlay

/-! ### What views have to show -/

/-- A declaration only says that its own module exists. -/
def Declaration.IsOwnStub (d : Declaration) : Prop :=
  d.isStub = true ∧ d.key.scope = .ambient d.key.name

instance (d : Declaration) : Decidable d.IsOwnStub :=
  inferInstanceAs (Decidable (_ ∧ _))

theorem Declaration.IsOwnStub.members_eq_nil {d : Declaration} (h : d.IsOwnStub) :
    d.members = [] := by
  have hbody : d.body = .stub := eq_of_beq h.1
  rw [members, hbody]

/-- The views and indexes of a table show its list of declarations.  A key is a scope and a name, so
that `get?` answers the lookup of a name in a scope as well. -/
structure Table.Agrees (table : Table) : Prop where
  unique : (table.declarations.map Declaration.key).Nodup
  found : ∀ key d, table.get? key = some d ↔ d ∈ table.declarations ∧ d.key = key
  missing : ∀ key, table.get? key = none ↔ ∀ d ∈ table.declarations, d.key ≠ key
  moduleFound : ∀ name, (table.module? name).isSome = true
    ↔ ∃ d ∈ table.declarations, d.key.scope = .ambient name
  moduleShown : ∀ name view, table.module? name = some view → view.name = name ∧
    view.declarations
      = table.declarations.filter fun d => d.key.scope = .ambient name ∧ ¬ d.IsOwnStub
  modules : table.modules.map ModuleView.name
    = (table.declarations.filterMap fun d => d.key.scope.module?).eraseDups
  modulesShown : ∀ view ∈ table.modules, table.module? view.name = some view
  isOpaque : ∀ view ∈ table.modules, view.isOpaque = true
    ↔ ∀ d ∈ table.declarations, d.key.scope = .ambient view.name → d.members = []
  once : ∀ d ∈ table.declarations,
    (table.globals ++ table.modules.flatMap ModuleView.declarations).count d
      = if d.IsOwnStub then 0 else 1

theorem Scope.module?_eq_some_iff (scope : Scope) (name : String) :
    scope.module? = some name ↔ scope = .ambient name := by
  cases scope <;> simp [module?]

/-- The declarations that a view leaves out are the modules' own stubs. -/
theorem Table.isListed_iff (d : Declaration) : isListed d = true ↔ ¬ d.IsOwnStub := by
  rw [Declaration.IsOwnStub, ← Scope.module?_eq_some_iff, isListed, Key.isOwn, Bool.not_eq_true',
    Bool.and_eq_false_iff, beq_eq_false_iff_ne, not_and_or, Bool.not_eq_true]
  exact or_comm

/-- A stub that belongs to no module is not left out. -/
theorem Table.isListed_of_global {d : Declaration} (h : d.key.scope = .global) :
    isListed d = true := by
  rw [isListed_iff]
  rintro ⟨-, hscope⟩
  rw [h] at hscope
  exact absurd hscope nofun

namespace Table

/-! ### Views of modules -/

/-- Each declaration of a module, with the name of the module. -/
def inModules (ds : List Declaration) : List (String × Declaration) :=
  ds.filterMap fun d => d.key.scope.module?.map fun name => (name, d)

/-- Declarations outside modules are passed over. -/
theorem foldl_addToModule (ds : List Declaration) (lists : Assoc String (List Declaration)) :
    ds.foldl addToModule lists
      = (inModules ds).foldl (fun lists pair => lists.alter pair.1 fun ds? =>
          ds?.getD [] ++ if isListed pair.2 then [pair.2] else []) lists := by
  induction ds generalizing lists with
  | nil => rfl
  | cons d ds ih =>
    obtain ⟨⟨scope, name⟩, body, sites⟩ := d
    cases scope with
    | global =>
      rw [List.foldl_cons, ih]
      rfl
    | ambient home =>
      rw [List.foldl_cons, ih]
      rfl

theorem foldl_append_if {α : Type} (p : α → Bool) (as : List α) :
    as.foldl (fun kept a => kept ++ if p a then [a] else []) [] = as.filter p := by
  induction as using List.reverseRecOn with
  | nil => rfl
  | append_singleton as a ih =>
    rw [List.foldl_concat, ih, List.filter_append]
    by_cases h : p a <;> simp [h]

theorem map_fst_inModules (ds : List Declaration) :
    (inModules ds).map Prod.fst = ds.filterMap fun d => d.key.scope.module? := by
  rw [inModules, List.map_filterMap]
  refine List.filterMap_congr fun d _ => ?_
  cases d.key.scope.module? <;> rfl

theorem filter_inModules (ds : List Declaration) (name : String) :
    ((inModules ds).filter fun pair => pair.1 = name).map Prod.snd
      = ds.filter fun d => d.key.scope = .ambient name := by
  induction ds with
  | nil => rfl
  | cons d ds ih =>
    obtain ⟨⟨scope, own⟩, body, sites⟩ := d
    cases scope with
    | global => simpa [inModules, Scope.module?] using ih
    | ambient home =>
      by_cases h : home = name
      · simpa [inModules, Scope.module?, h] using ih
      · simpa [inModules, Scope.module?, h] using ih

/-- The modules come in the order of their first declarations, each with its declarations but its
own stub. -/
theorem modulesOf_eq (ds : List Declaration) : modulesOf ds
    = (ds.filterMap fun d => d.key.scope.module?).eraseDups.map fun name =>
        ⟨name, ds.filter fun d => d.key.scope = .ambient name ∧ ¬ d.IsOwnStub⟩ := by
  have hkeys : (ds.foldl addToModule []).keys
      = (ds.filterMap fun d => d.key.scope.module?).eraseDups := by
    rw [foldl_addToModule, ← map_fst_inModules]
    exact Assoc.keys_foldl_alter Prod.fst (fun pair ds? =>
      ds?.getD [] ++ if isListed pair.2 then [pair.2] else []) (inModules ds)
  have hlists : ds.foldl addToModule [] = (ds.foldl addToModule []).keys.map fun name =>
      (name, ds.filter fun d => d.key.scope = .ambient name ∧ ¬ d.IsOwnStub) := by
    refine Assoc.eq_map_keys (hkeys ▸ nodup_eraseDups _) fun name hname => ?_
    rw [hkeys, List.mem_eraseDups, ← map_fst_inModules] at hname
    rw [foldl_addToModule, Assoc.get?_foldl_alter Prod.fst (fun pair ds? =>
      ds?.getD [] ++ if isListed pair.2 then [pair.2] else []),
      Assoc.foldl_some_getD fun list (pair : String × Declaration) =>
        list ++ if isListed pair.2 then [pair.2] else []]
    -- a module that has a key has a declaration
    have hsome : ((inModules ds).filter fun pair => decide (pair.1 = name)) ≠ [] := by
      obtain ⟨pair, hpair, rfl⟩ := List.mem_map.mp hname
      exact List.ne_nil_of_mem (List.mem_filter.mpr ⟨hpair, decide_eq_true rfl⟩)
    rw [if_neg hsome]
    -- within a module, the declarations are gone through in order
    have hlist : ((inModules ds).filter fun pair => decide (pair.1 = name)).foldl
          (fun list pair => list ++ if isListed pair.2 then [pair.2] else []) []
        = (((inModules ds).filter fun pair => decide (pair.1 = name)).map Prod.snd).filter
            isListed := by
        rw [← foldl_append_if isListed, List.foldl_map]
    rw [hlist, filter_inModules, List.filter_filter]
    congr 1
    refine List.filter_congr fun d _ => ?_
    rw [Bool.eq_iff_iff, Bool.and_eq_true, isListed_iff, decide_eq_true_iff, decide_eq_true_iff]
    exact and_comm
  rw [modulesOf, hlists, List.map_map, hkeys]
  rfl

theorem names_modulesOf (ds : List Declaration) : (modulesOf ds).map ModuleView.name
    = (ds.filterMap fun d => d.key.scope.module?).eraseDups := by
  rw [modulesOf_eq, List.map_map]
  exact List.map_id' _

/-- A name leads to the view of its module, and to no other. -/
theorem module?_ofDeclarations (ds : List Declaration) (diagnostics : List Diagnostic)
    (name : String) (view : ModuleView) :
    (ofDeclarations ds diagnostics).module? name = some view
      ↔ view ∈ modulesOf ds ∧ view.name = name := by
  have hnodup : ((modulesOf ds).map ModuleView.name).Nodup := by
    rw [names_modulesOf]
    exact nodup_eraseDups _
  exact Assoc.getElem?_places hnodup name view

/-! ### The parts of a list -/

/-- The global declarations and those that the views of modules show are all declarations but the
modules' own stubs. -/
theorem listed_perm (ds : List Declaration) (diagnostics : List Diagnostic) :
    ((ofDeclarations ds diagnostics).globals
        ++ (modulesOf ds).flatMap ModuleView.declarations).Perm (ds.filter isListed) := by
  -- no scope comes twice
  have hnodup : (Scope.global :: ((ds.filterMap fun d => d.key.scope.module?).eraseDups.map
      Scope.ambient)).Nodup := by
    rw [List.nodup_cons]
    exact ⟨by simp, List.Nodup.map (fun _ _ h => Scope.ambient.inj h) (nodup_eraseDups _)⟩
  -- each declaration is in one of these scopes
  have hscopes : ∀ d ∈ ds.filter isListed, d.key.scope ∈ Scope.global ::
      ((ds.filterMap fun d => d.key.scope.module?).eraseDups.map Scope.ambient) := by
    intro d hd
    cases hscope : d.key.scope with
    | global => exact List.mem_cons_self ..
    | ambient name =>
      refine List.mem_cons_of_mem _ (List.mem_map_of_mem (List.mem_eraseDups.mpr ?_))
      exact List.mem_filterMap.mpr ⟨d, (List.mem_filter.mp hd).1, by rw [hscope]; rfl⟩
  -- what is listed falls into groups by scope: the global ones, and those of each module
  have hgroups := perm_flatMap_filter (fun d : Declaration => d.key.scope) hnodup _ hscopes
  have hglobals : (ofDeclarations ds diagnostics).globals
      = (ds.filter isListed).filter fun d => d.key.scope = .global := by
    rw [List.filter_filter]
    refine List.filter_congr fun d _ => ?_
    cases hscope : d.key.scope with
    | global => rw [isListed_of_global hscope]; rfl
    | ambient name => rfl
  have hmodules : (modulesOf ds).flatMap ModuleView.declarations
      = ((ds.filterMap fun d => d.key.scope.module?).eraseDups.map Scope.ambient).flatMap
          fun scope => (ds.filter isListed).filter fun d => d.key.scope = scope := by
    rw [modulesOf_eq, List.flatMap_map, List.flatMap_map]
    refine List.flatMap_congr fun name _ => ?_
    rw [List.filter_filter]
    refine List.filter_congr fun d _ => ?_
    rw [Bool.eq_iff_iff, Bool.and_eq_true, isListed_iff, decide_eq_true_iff, decide_eq_true_iff]
  rw [List.flatMap_cons] at hgroups
  rwa [hglobals, hmodules]

/-! ### Tables -/

/-- A module has no member that its view does not show: its own stub has none. -/
theorem isOpaque_iff {ds : List Declaration} {view : ModuleView} (h : view ∈ modulesOf ds) :
    view.isOpaque = true
      ↔ ∀ d ∈ ds, d.key.scope = .ambient view.name → d.members = [] := by
  rw [modulesOf_eq, List.mem_map] at h
  obtain ⟨name, -, rfl⟩ := h
  simp only [ModuleView.isOpaque, List.all_eq_true, List.mem_filter, decide_eq_true_iff,
    List.isEmpty_iff]
  constructor
  · intro hshown d hd hscope
    by_cases hown : d.IsOwnStub
    · exact hown.members_eq_nil
    · exact hshown d ⟨hd, hscope, hown⟩
  · rintro hall d ⟨hd, hscope, -⟩
    exact hall d hd hscope

/-- Views and indexes agree with any list of declarations of which no two have the same key. -/
theorem agrees_ofDeclarations {ds : List Declaration} (h : (ds.map Declaration.key).Nodup)
    (diagnostics : List Diagnostic) : (ofDeclarations ds diagnostics).Agrees where
  unique := h
  found := get?_ofDeclarations h diagnostics
  missing key := by
    rw [Option.eq_none_iff_forall_ne_some]
    constructor
    · intro hnone d hd hkey
      exact hnone d ((get?_ofDeclarations h diagnostics key d).mpr ⟨hd, hkey⟩)
    · intro hne d hd
      obtain ⟨hmem, hkey⟩ := (get?_ofDeclarations h diagnostics key d).mp hd
      exact hne d hmem hkey
  moduleFound name := by
    -- a module is found by its name if a declaration has its scope
    have hname : (∃ d ∈ ds, d.key.scope = .ambient name)
        ↔ name ∈ (modulesOf ds).map ModuleView.name := by
      rw [names_modulesOf, List.mem_eraseDups, List.mem_filterMap]
      simp only [Scope.module?_eq_some_iff]
    show _ ↔ ∃ d ∈ ds, d.key.scope = .ambient name
    rw [hname, Option.isSome_iff_exists, List.mem_map]
    exact exists_congr fun view => module?_ofDeclarations ds diagnostics name view
  moduleShown name view hview := by
    obtain ⟨hmem, rfl⟩ := (module?_ofDeclarations ds diagnostics name view).mp hview
    rw [modulesOf_eq, List.mem_map] at hmem
    obtain ⟨name, -, rfl⟩ := hmem
    exact ⟨rfl, rfl⟩
  modules := names_modulesOf ds
  modulesShown view hview :=
    (module?_ofDeclarations ds diagnostics view.name view).mpr ⟨hview, rfl⟩
  isOpaque view hview := isOpaque_iff hview
  once d hd := by
    have hcount := (listed_perm ds diagnostics).count_eq d
    have hnodup : (ds.filter isListed).Nodup := (List.Nodup.of_map _ h).filter _
    refine hcount.trans ?_
    -- a module does not show its own stub, and all else is shown once
    by_cases hown : d.IsOwnStub
    · rw [if_pos hown, List.count_eq_zero, List.mem_filter, isListed_iff]
      exact fun hmem => hmem.2 hown
    · rw [if_neg hown]
      exact List.count_eq_one_of_mem hnodup
        (List.mem_filter.mpr ⟨hd, (isListed_iff d).mpr hown⟩)

/-- In the table of any registry, views and indexes agree with the list of declarations. -/
theorem agrees_ofRegistry (options : Options) (ds : List Declaration) :
    (ofRegistry options (.ofList ds)).Agrees := by
  have hkeys : ((ofRegistry options (.ofList ds)).declarations.map Declaration.key).Nodup := by
    rw [keys_ofRegistry]
    exact Merged.nodup_keys_ofRegistry options ds
  exact agrees_ofDeclarations hkeys _

end Table

end Overlay
