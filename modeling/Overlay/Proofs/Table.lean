/-
What a table of a registry holds.

The keys of a table are those of the registry that have a well-formed declaration.  No two are the
same, so that a table can be asked for each of its declarations by the key alone:

* `Table.get?_ofDeclarations` — a key leads to the declaration that has it;
* `Table.get?_ofRegistry` — what stands under a key in the table of a registry;
* `Table.mem_of_mem_modulesOf` — the views of modules show nothing but declarations of the table;
* `Table.ofDeclarations_map` — views and indexes depend on keys, and on which keys are stubs.
-/
import Overlay.Proofs.Resolve

namespace Overlay

/-! ### Keys -/

/-- Where a declaration is well formed, its key was registered. -/
theorem Registry.mem_keys_of_wellFormed {ds : List Declaration} {key : Key}
    (h : (ofList ds).wellFormed key ≠ []) : key ∈ (ofList ds).keys := by
  obtain ⟨d, hd⟩ := List.exists_mem_of_ne_nil _ h
  have hsite : d ∈ ds.filter fun d => d.key = key := by
    rw [← sites_ofList]
    exact (List.mem_filter.mp hd).1
  rw [keys_ofList, List.mem_eraseDups, List.mem_map]
  exact ⟨d, (List.mem_filter.mp hsite).1, of_decide_eq_true (List.mem_filter.mp hsite).2⟩

namespace Merged

variable (options : Options) (ds : List Declaration)

theorem keys_ofRegistry : (ofRegistry options (.ofList ds)).keys
    = (Registry.ofList ds).keys.filter fun key => (Registry.ofList ds).wellFormed key ≠ [] := by
  rw [keys, declarations_ofRegistry, reference, List.map_map]
  exact List.map_id' _

theorem nodup_keys_ofRegistry : (ofRegistry options (.ofList ds)).keys.Nodup := by
  rw [keys_ofRegistry]
  exact (Registry.nodup_keys_ofList ds).filter _

theorem mem_keys_ofRegistry (key : Key) : key ∈ (ofRegistry options (.ofList ds)).keys
    ↔ (Registry.ofList ds).wellFormed key ≠ [] := by
  rw [keys_ofRegistry, List.mem_filter, decide_eq_true_iff]
  exact ⟨fun h => h.2, fun h => ⟨Registry.mem_keys_of_wellFormed h, h⟩⟩

theorem declarations_eq_map_keys : (ofRegistry options (.ofList ds)).declarations
    = (ofRegistry options (.ofList ds)).keys.map fun key =>
        Merge.union key ((Registry.ofList ds).wellFormed key) := by
  rw [keys_ofRegistry, declarations_ofRegistry, reference]

end Merged

/-! ### Declarations by their keys -/

namespace Table

/-- The type that a name stands for in the table of a registry. -/
def typeIn (options : Options) (registry : Registry) : Scope → String → Ty :=
  Lookup.ruleType (Merged.ofRegistry options registry).keys options.acrossModules

/-- A key leads to the declaration that has it, and to no other. -/
theorem get?_ofDeclarations {declarations : List Declaration}
    (h : (declarations.map Declaration.key).Nodup) (diagnostics : List Diagnostic) (key : Key)
    (d : Declaration) :
    (ofDeclarations declarations diagnostics).get? key = some d
      ↔ d ∈ declarations ∧ d.key = key :=
  Assoc.getElem?_places h key d

variable (options : Options) (ds : List Declaration)

theorem declarations_ofRegistry : (ofRegistry options (.ofList ds)).declarations
    = ((Registry.ofList ds).keys.filter fun key => (Registry.ofList ds).wellFormed key ≠ []).map
        fun key => (Merge.union key ((Registry.ofList ds).wellFormed key)).ruled
          (typeIn options (.ofList ds)) := by
  have hresolve := Merged.declarations_resolve (Merged.ofRegistry options (.ofList ds)) options
    fun d hd m hm => Merged.firsts_overloads hd hm
  calc (ofRegistry options (.ofList ds)).declarations
      = (Merged.ofRegistry options (.ofList ds)).declarations.map
          (Declaration.ruled (typeIn options (.ofList ds))) := hresolve
    _ = _ := by
      rw [Merged.declarations_ofRegistry, Merged.reference, List.map_map]
      rfl

/-- Looking names up leaves the keys as they are. -/
theorem keys_ofRegistry : (ofRegistry options (.ofList ds)).declarations.map Declaration.key
    = (Merged.ofRegistry options (.ofList ds)).keys := by
  rw [declarations_ofRegistry, Merged.keys_ofRegistry, List.map_map]
  exact List.map_id' _

theorem get?_ofRegistry_iff (key : Key) (d : Declaration) :
    (ofRegistry options (.ofList ds)).get? key = some d
      ↔ d ∈ (ofRegistry options (.ofList ds)).declarations ∧ d.key = key := by
  refine get?_ofDeclarations ?_ _ key d
  exact (keys_ofRegistry options ds).symm ▸ Merged.nodup_keys_ofRegistry options ds

/-- What stands under a key: what its well-formed declarations say together, with all names looked
up. -/
theorem get?_ofRegistry (key : Key) : (ofRegistry options (.ofList ds)).get? key
    = if (Registry.ofList ds).wellFormed key ≠ [] then
        some ((Merge.union key ((Registry.ofList ds).wellFormed key)).ruled
          (typeIn options (.ofList ds)))
      else none := by
  by_cases h : (Registry.ofList ds).wellFormed key = []
  · rw [if_neg (not_not_intro h), Option.eq_none_iff_forall_ne_some]
    intro d hd
    obtain ⟨hmem, rfl⟩ := (get?_ofRegistry_iff options ds key d).mp hd
    rw [declarations_ofRegistry, List.mem_map] at hmem
    obtain ⟨key', hkey', rfl⟩ := hmem
    exact of_decide_eq_true (List.mem_filter.mp hkey').2 h
  · rw [if_pos h, get?_ofRegistry_iff, declarations_ofRegistry]
    refine ⟨List.mem_map.mpr ⟨key, List.mem_filter.mpr ⟨?_, decide_eq_true h⟩, rfl⟩, rfl⟩
    exact Registry.mem_keys_of_wellFormed h

/-- A table can be asked for each of its keys. -/
theorem exists_get?_of_mem_keys {key : Key}
    (h : key ∈ (Merged.ofRegistry options (.ofList ds)).keys) :
    ∃ d, (ofRegistry options (.ofList ds)).get? key = some d ∧ d.key = key := by
  rw [← keys_ofRegistry, List.mem_map] at h
  obtain ⟨d, hd, hkey⟩ := h
  exact ⟨d, (get?_ofRegistry_iff options ds key d).mpr ⟨hd, hkey⟩, hkey⟩

/-! ### Views of modules -/

theorem mem_of_mem_addToModule {lists : Assoc String (List Declaration)}
    {declarations : List Declaration} {d : Declaration}
    (h : ∀ list ∈ lists, ∀ d' ∈ list.2, d' ∈ declarations) :
    ∀ list ∈ addToModule lists d, ∀ d' ∈ list.2, d' ∈ declarations ++ [d] := by
  have hlists : ∀ list ∈ lists, ∀ d' ∈ list.2, d' ∈ declarations ++ [d] :=
    fun list hlist d' hd' => List.mem_append_left _ (h list hlist d' hd')
  -- a list can only gain the new declaration
  have hnew : ∀ d' ∈ (if isListed d then [d] else []), d' ∈ declarations ++ [d] := by
    intro d' hd'
    split at hd'
    · exact List.mem_append_right _ hd'
    · exact absurd hd' List.not_mem_nil
  rw [addToModule]
  split
  · exact hlists
  · refine Assoc.forall_values_alter (P := fun list => ∀ d' ∈ list, d' ∈ declarations ++ [d])
      _ hlists ?_ fun list hlist => ?_
    · exact hnew
    · intro d' hd'
      rcases List.mem_append.mp hd' with hd' | hd'
      · exact hlist d' hd'
      · exact hnew d' hd'

/-- The views of modules show nothing but the declarations that they are made of. -/
theorem mem_of_mem_modulesOf {declarations : List Declaration} {view : ModuleView}
    {d : Declaration} (hview : view ∈ modulesOf declarations) (hd : d ∈ view.declarations) :
    d ∈ declarations := by
  have hlists : ∀ list ∈ declarations.foldl addToModule [], ∀ d ∈ list.2, d ∈ declarations := by
    clear hview hd
    induction declarations using List.reverseRecOn with
    | nil => exact fun list hlist => absurd hlist List.not_mem_nil
    | append_singleton declarations d ih =>
      rw [List.foldl_append]
      exact mem_of_mem_addToModule ih
  rw [modulesOf, List.mem_map] at hview
  obtain ⟨list, hlist, rfl⟩ := hview
  exact hlists list hlist d hd

end Table

/-- The view with other declarations in the places of its own. -/
def ModuleView.map (f : Declaration → Declaration) (view : ModuleView) : ModuleView :=
  { view with declarations := view.declarations.map f }

namespace Table

section

variable (f : Declaration → Declaration) (hkey : ∀ d, (f d).key = d.key)
  (hstub : ∀ d, (f d).isStub = d.isStub)

include hkey hstub

theorem map_addToModule (lists : Assoc String (List Declaration)) (d : Declaration) :
    (addToModule lists d).map (fun list => (list.1, list.2.map f))
      = addToModule (lists.map fun list => (list.1, list.2.map f)) (f d) := by
  have hlisted : isListed (f d) = isListed d := by
    rw [isListed, isListed, hstub, hkey]
  rw [addToModule, addToModule, hkey]
  split
  · rfl
  · refine Assoc.map_alter (fun ds? => ?_) lists
    rw [List.map_append, hlisted]
    congr 1
    · cases ds? <;> rfl
    · split <;> rfl

/-- The views of modules depend on the keys of declarations, and on which of them are stubs. -/
theorem modulesOf_map (declarations : List Declaration) :
    modulesOf (declarations.map f) = (modulesOf declarations).map (ModuleView.map f) := by
  have hlists : (declarations.map f).foldl addToModule []
      = (declarations.foldl addToModule []).map fun list => (list.1, list.2.map f) := by
    induction declarations using List.reverseRecOn with
    | nil => rfl
    | append_singleton declarations d ih =>
      rw [List.map_append, List.map_singleton, List.foldl_concat, List.foldl_concat, ih,
        map_addToModule f hkey hstub]
  rw [modulesOf, modulesOf, hlists, List.map_map, List.map_map]
  rfl

/-- The table of other declarations with the same keys, of which the same are stubs. -/
theorem ofDeclarations_map (declarations : List Declaration) (diagnostics : List Diagnostic) :
    ofDeclarations (declarations.map f) diagnostics
      = { ofDeclarations declarations diagnostics with
          declarations := declarations.map f
          modules := (modulesOf declarations).map (ModuleView.map f) } := by
  have hkeys : (declarations.map f).map Declaration.key = declarations.map Declaration.key := by
    rw [List.map_map]
    exact List.map_congr_left fun d _ => hkey d
  have hnames : ((modulesOf declarations).map (ModuleView.map f)).map ModuleView.name
      = (modulesOf declarations).map ModuleView.name := by
    rw [List.map_map]
    rfl
  rw [ofDeclarations, modulesOf_map f hkey hstub, hkeys, hnames]
  rfl

end

end Table

end Overlay
