/-
What a registry holds.

Every registry is the registry of the list of what was registered with it, one after the other, so
the laws are about `Registry.ofList`:

* `Registry.keys_ofList` — the keys are those of the list, each where it came first;
* `Registry.sites_ofList` — the declarations of a key are those of the list, in order;
* `Registry.foldl_addFragment` — fragments register their declarations one after the other;
* `Registry.run_eq_ofList` — so does any run of steps that register declarations;
* `Registry.holds_run` — after any run, a registry holds what was registered, and counts it right.
-/
import Overlay.Proofs.Order
import Overlay.Registry
import Mathlib.Algebra.GroupWithZero.Nat
import Mathlib.Data.Finset.Card

namespace Overlay.Registry

/-! ### What is registered -/

/-- A step in which declarations are registered. -/
inductive Step where
  | register (d : Declaration)
  | extend (ds : List Declaration)
  | addFragment (fragment : Fragment)
  /-- A new registry takes the place of the one before. -/
  | ofList (ds : List Declaration)

namespace Step

def apply (registry : Registry) : Step → Registry
  | register d => registry.register d
  | extend ds => registry.extend ds
  | addFragment fragment => registry.addFragment fragment
  | ofList ds => .ofList ds

/-- The declarations that are registered after a step, one after the other, where some were before
it. -/
def registered (ds : List Declaration) : Step → List Declaration
  | register d => ds ++ [d]
  | extend es => ds ++ es
  | addFragment fragment => ds ++ fragment.declarations
  | ofList es => es

end Step

/-- The registry after some steps. -/
def run (steps : List Step) : Registry :=
  steps.foldl Step.apply empty

/-- The declarations that are registered in some steps. -/
def registered (steps : List Step) : List Declaration :=
  steps.foldl Step.registered []

/-- A registry holds declarations that were registered one after the other. -/
structure Holds (registry : Registry) (ds : List Declaration) : Prop where
  /-- The keys are those of the declarations, each once … -/
  keys : registry.keys = (ds.map Declaration.key).eraseDups
  /-- … and in the order of the first declarations that have them. -/
  first : registry.keys.Pairwise fun key key' =>
    ds.findIdx (fun d => d.key = key) < ds.findIdx fun d => d.key = key'
  sites : ∀ key, registry.sites key = ds.filter fun d => d.key = key
  entries : registry.entries = registry.keys.map fun key => (key, registry.sites key)
  stored : ∀ entry ∈ registry.entries, ∀ d ∈ entry.2, d.key = entry.1
  size : registry.size = (ds.map Declaration.key).toFinset.card
  siteCount : registry.siteCount = ds.length
  siteCount_eq_sum :
    registry.siteCount = (registry.keys.map fun key => (registry.sites key).length).sum

/-! ### One registration after the other -/

theorem extend_ofList (ds es : List Declaration) : (ofList ds).extend es = ofList (ds ++ es) := by
  rw [ofList, ofList, extend, extend, extend, List.foldl_append]

theorem foldl_addFragment (fragments : List Fragment) :
    fragments.foldl addFragment empty = ofList (fragments.flatMap Fragment.declarations) := by
  induction fragments using List.reverseRecOn with
  | nil => rfl
  | append_singleton fragments fragment ih =>
    rw [List.foldl_append, ih, List.foldl_cons, List.foldl_nil, addFragment, extend_ofList,
      List.flatMap_append, List.flatMap_singleton]

theorem entries_ofList (ds : List Declaration) : (ofList ds).entries =
    ds.foldl (fun entries d => Assoc.alter d.key (fun sites? => sites?.getD [] ++ [d]) entries) []
      := by
  induction ds using List.reverseRecOn with
  | nil => rfl
  | append_singleton ds d ih =>
    rw [← extend_ofList, List.foldl_append, ← ih]
    rfl

theorem siteCount_extend (registry : Registry) (ds : List Declaration) :
    (registry.extend ds).siteCount = registry.siteCount + ds.length := by
  induction ds using List.reverseRecOn with
  | nil => rfl
  | append_singleton ds d ih =>
    rw [extend, List.foldl_concat, register, List.length_append, ← Nat.add_assoc, ← ih]
    rfl

/-- A step registers its declarations behind those that were registered before it. -/
theorem Step.apply_ofList (ds : List Declaration) (step : Step) :
    step.apply (.ofList ds) = .ofList (step.registered ds) := by
  cases step with
  | register d => exact extend_ofList ds [d]
  | extend es => exact extend_ofList ds es
  | addFragment fragment => exact extend_ofList ds fragment.declarations
  | ofList es => rfl

/-- A run ends with the registry of what was registered in it. -/
theorem run_eq_ofList (steps : List Step) : run steps = ofList (registered steps) := by
  induction steps using List.reverseRecOn with
  | nil => rfl
  | append_singleton steps step ih =>
    rw [run, registered, List.foldl_concat, List.foldl_concat, ← run, ← registered, ih,
      Step.apply_ofList]

/-! ### Keys and their declarations -/

theorem keys_ofList (ds : List Declaration) :
    (ofList ds).keys = (ds.map Declaration.key).eraseDups := by
  rw [keys, entries_ofList]
  exact Assoc.keys_foldl_alter Declaration.key (fun d sites? => sites?.getD [] ++ [d]) ds

theorem nodup_keys_ofList (ds : List Declaration) : (ofList ds).keys.Nodup := by
  rw [keys_ofList]
  exact nodup_eraseDups _

/-- A registry of more has the keys of the registry in front. -/
theorem keys_prefix (ds es : List Declaration) : (ofList ds).keys <+: (ofList (ds ++ es)).keys := by
  rw [keys_ofList, keys_ofList, List.map_append, List.eraseDups_append]
  exact List.prefix_append ..

theorem get?_entries_ofList (ds : List Declaration) (key : Key) :
    (ofList ds).entries.get? key
      = if (ds.filter fun d => d.key = key) = [] then none
        else some (ds.filter fun d => d.key = key) := by
  rw [entries_ofList,
    Assoc.get?_foldl_alter Declaration.key (fun d sites? => sites?.getD [] ++ [d]),
    Assoc.foldl_some_getD (fun sites d => sites ++ [d]), Assoc.foldl_concat]

theorem sites_ofList (ds : List Declaration) (key : Key) :
    (ofList ds).sites key = ds.filter fun d => d.key = key := by
  rw [sites, get?_entries_ofList]
  by_cases h : (ds.filter fun d => d.key = key) = [] <;> simp [h]

theorem sites_append (ds es : List Declaration) (key : Key) :
    (ofList (ds ++ es)).sites key = (ofList ds).sites key ++ (ofList es).sites key := by
  rw [sites_ofList, sites_ofList, sites_ofList, List.filter_append]

theorem key_of_mem_sites {ds : List Declaration} {key : Key} {d : Declaration}
    (h : d ∈ (ofList ds).sites key) : d.key = key := by
  rw [sites_ofList] at h
  exact of_decide_eq_true (List.mem_filter.mp h).2

/-- A registry is its keys, each with its declarations. -/
theorem entries_eq_map_keys (ds : List Declaration) :
    (ofList ds).entries = (ofList ds).keys.map fun key => (key, (ofList ds).sites key) := by
  refine Assoc.eq_map_keys (nodup_keys_ofList ds) fun key hkey => ?_
  have hsome : (ofList ds).entries.get? key ≠ none := by
    rw [Ne, Assoc.get?_eq_none_iff]
    exact not_not_intro hkey
  obtain ⟨found, hfound⟩ := Option.ne_none_iff_exists'.mp hsome
  rw [sites, hfound, Option.getD_some]

theorem siteCount_ofList (ds : List Declaration) : (ofList ds).siteCount = ds.length := by
  rw [ofList, siteCount_extend]
  exact Nat.zero_add _

/-- Sorted by their keys, no declaration is lost and none comes twice. -/
theorem perm_flatMap_sites (ds : List Declaration) :
    ((ofList ds).keys.flatMap (ofList ds).sites).Perm ds := by
  have hsites : (ofList ds).sites = fun key => ds.filter fun d => d.key = key :=
    funext fun key => sites_ofList ds key
  rw [hsites]
  refine perm_flatMap_filter Declaration.key (nodup_keys_ofList ds) ds fun d hd => ?_
  rw [keys_ofList]
  exact List.mem_eraseDups.mpr (List.mem_map_of_mem hd)

theorem holds_ofList (ds : List Declaration) : (ofList ds).Holds ds where
  keys := keys_ofList ds
  first := by
    rw [keys_ofList]
    exact pairwise_findIdx_eraseDups Declaration.key ds
  sites := sites_ofList ds
  entries := entries_eq_map_keys ds
  stored := by
    rw [entries_eq_map_keys]
    intro entry hentry d hd
    obtain ⟨key, -, rfl⟩ := List.mem_map.mp hentry
    exact key_of_mem_sites hd
  size := by
    have hkeys : (ofList ds).size = (ofList ds).keys.length := (List.length_map _).symm
    -- each key is there once, so that their number is that of their set
    have hset : (ofList ds).keys.toFinset = (ds.map Declaration.key).toFinset := by
      ext key
      rw [List.mem_toFinset, List.mem_toFinset, keys_ofList, List.mem_eraseDups]
    rw [hkeys, ← hset, List.toFinset_card_of_nodup (nodup_keys_ofList ds)]
  siteCount := siteCount_ofList ds
  siteCount_eq_sum := by
    rw [siteCount_ofList, ← (perm_flatMap_sites ds).length_eq]
    exact List.length_flatMap

/-- However declarations are registered, in steps of any kind, the registry holds all of them, in
order and under their keys, and counts them right. -/
theorem holds_run (steps : List Step) : (run steps).Holds (registered steps) := by
  rw [run_eq_ofList]
  exact holds_ofList _

end Overlay.Registry
