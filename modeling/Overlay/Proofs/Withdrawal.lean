/-
Withdrawn reports.

Overloads that have become alike collapse into the first of them, and what was reported on those
that are gone is withdrawn.  A report knows its overload by the site alone, and more than one
overload can stand at a site.  So a table reports the overloads of its members behind the first
ones, but for those that share their site with one that is gone:

* `Overload.split_perm` — a split loses no overload;
* `Member.perm_furtherSites` — an overload behind the first one stays behind it or collapses;
* `Table.perm_sites_ambiguities` — the reports in a table;
* `Table.ambiguities_withdrawn` — how many there are, and when there is one for each overload;
* `Table.ambiguity_lost_of_rereadFile` — a report that is withdrawn with that on another overload.
-/
import Overlay.Proofs.Reports
import Mathlib.Algebra.Ring.Nat

open scoped List

namespace Overlay

/-! ### Overloads that stay and overloads that collapse -/

theorem Overload.split_perm (os : List Overload) : ((split os).1 ++ (split os).2).Perm os := by
  induction os using List.reverseRecOn with
  | nil => exact .refl _
  | append_singleton os o ih =>
    rw [split_concat]
    by_cases hin : o.isIn (split os).1
    · rw [if_pos hin]
      show ((split os).1 ++ ((split os).2 ++ [o])).Perm (os ++ [o])
      rw [← List.append_assoc]
      exact ih.append_right _
    · rw [if_neg hin]
      show ((split os).1 ++ [o] ++ (split os).2).Perm (os ++ [o])
      have hswap : ((split os).1 ++ [o] ++ (split os).2).Perm
          ((split os).1 ++ (split os).2 ++ [o]) := by
        rw [List.append_assoc, List.append_assoc]
        exact List.perm_append_comm.append_left _
      exact hswap.trans (ih.append_right _)

namespace Member

variable (lookup : Lookup) (scope : Scope) (m : Member)

theorem resolved_perm : ((m.resolved lookup scope).1 ++ (m.resolved lookup scope).2).Perm
    (m.overloads.map (Overload.resolve lookup scope)) := by
  rw [resolved]
  split
  · exact Overload.split_perm _
  · rw [List.append_nil]

theorem head?_resolved : (m.resolved lookup scope).1.head?
    = m.overloads.head?.map (Overload.resolve lookup scope) := by
  rw [resolved, ← List.head?_map]
  split
  · rw [Overload.split_fst, Overload.head?_firsts]
  · rfl

/-- The overloads behind the first one are those that stay behind it, and those that collapse. -/
theorem perm_furtherSites : ∃ collapsed, collapsed.map Prod.fst = m.collapsedSites lookup scope ∧
    ((m.resolve lookup scope).furtherSites ++ collapsed).Perm m.furtherSites := by
  have hperm := m.resolved_perm lookup scope
  have hhead := m.head?_resolved lookup scope
  rw [resolve, collapsedSites, furtherSites, furtherSites]
  generalize m.resolved lookup scope = resolved at hperm hhead ⊢
  obtain ⟨kept, gone⟩ := resolved
  obtain ⟨name, overloads⟩ := m
  cases overloads with
  | nil =>
    obtain ⟨rfl, rfl⟩ : kept = [] ∧ gone = [] := List.append_eq_nil_iff.mp hperm.eq_nil
    exact ⟨[], rfl, .refl _⟩
  | cons leading rest =>
    obtain ⟨others, rfl⟩ := List.head?_eq_some_iff.mp hhead
    -- the first overload leads both lists, so that the others match up
    have hrest : (others ++ gone).Perm (rest.map (Overload.resolve lookup scope)) :=
      List.perm_cons _ |>.mp hperm
    refine ⟨gone.map fun o => (o.site, leading.site), by rw [List.map_map]; rfl, ?_⟩
    have hsites := hrest.map fun o => (o.site, leading.site)
    rw [List.map_append, List.map_map] at hsites
    exact hsites

theorem perm_furtherSites_filter {gone : List Site}
    (h : ∀ site ∈ m.collapsedSites lookup scope, site ∈ gone) :
    ((m.resolve lookup scope).furtherSites.filter fun p => p.1 ∉ gone).Perm
      (m.furtherSites.filter fun p => p.1 ∉ gone) := by
  obtain ⟨collapsed, hsites, hperm⟩ := m.perm_furtherSites lookup scope
  have hnone : (collapsed.filter fun p => p.1 ∉ gone) = [] := by
    refine List.filter_eq_nil_iff.mpr fun p hp => ?_
    have hgone : p.1 ∈ gone := h p.1 (hsites ▸ List.mem_map_of_mem hp)
    simpa using hgone
  have hfilter := hperm.filter fun p => p.1 ∉ gone
  rwa [List.filter_append, hnone, List.append_nil] at hfilter

end Member

theorem Declaration.members_resolve (lookup : Lookup) (d : Declaration) :
    (d.resolve lookup).members = d.members.map (Member.resolve lookup d.key.scope) := by
  obtain ⟨key, body, sites⟩ := d
  cases body <;> rfl

theorem Declaration.perm_furtherSites_filter (lookup : Lookup) (d : Declaration) {gone : List Site}
    (h : ∀ site ∈ d.collapsedSites lookup, site ∈ gone) :
    ((d.resolve lookup).furtherSites.filter fun p => p.1 ∉ gone).Perm
      (d.furtherSites.filter fun p => p.1 ∉ gone) := by
  rw [furtherSites, furtherSites, members_resolve, List.flatMap_map, List.filter_flatMap,
    List.filter_flatMap]
  refine .flatMap_left _ fun m hm => m.perm_furtherSites_filter lookup d.key.scope ?_
  intro site hsite
  exact h site (List.mem_flatMap.mpr ⟨m, hm, hsite⟩)

/-! ### Reports in a table -/

namespace Table

def furtherSites (table : Table) : List (Site × Site) :=
  table.declarations.flatMap Declaration.furtherSites

/-- How many overloads of members stand behind the first ones. -/
def furtherCount (table : Table) : Nat :=
  (table.declarations.map fun d => (d.members.map fun m => m.overloads.length - 1).sum).sum

theorem length_furtherSites (table : Table) : table.furtherSites.length = table.furtherCount := by
  rw [furtherSites, furtherCount, List.length_flatMap]
  congr 1
  refine List.map_congr_left fun d _ => ?_
  rw [Declaration.furtherSites, List.length_flatMap]
  congr 1
  refine List.map_congr_left fun m _ => ?_
  rw [← m.length_ambiguities d.key, ← List.length_map (f := Diagnostic.sites), m.map_ambiguities,
    List.length_map]

theorem declarations_eq_map_resolve (options : Options) (ds : List Declaration) :
    (ofRegistry options (.ofList ds)).declarations
      = (Merged.ofRegistry options (.ofList ds)).declarations.map
          (Declaration.resolve ((Merged.ofRegistry options (.ofList ds)).lookup options)) :=
  rfl

/-- The overloads behind the first ones, as they are merged and as they are in the table, without
those at the sites of overloads that collapse. -/
theorem perm_furtherSites_filter (options : Options) (ds : List Declaration) :
    let gone := (Merged.ofRegistry options (.ofList ds)).collapsedSites options
    ((ofRegistry options (.ofList ds)).furtherSites.filter fun p => p.1 ∉ gone).Perm
      (((Merged.ofRegistry options (.ofList ds)).declarations.flatMap
        Declaration.furtherSites).filter fun p => p.1 ∉ gone) := by
  intro gone
  rw [furtherSites, declarations_eq_map_resolve, List.flatMap_map, List.filter_flatMap,
    List.filter_flatMap]
  refine .flatMap_left _ fun d hd => d.perm_furtherSites_filter _ ?_
  intro site hsite
  exact List.mem_flatMap.mpr ⟨d, hd, hsite⟩

/-- A table has a report on each overload behind the first one of its member, unless an overload at
the same site has collapsed. -/
theorem perm_sites_ambiguities {options : Options} (h : options.reportOverloads = true)
    (ds : List Declaration) :
    ((Diagnostic.withKind .overloadAmbiguity (ofRegistry options (.ofList ds)).diagnostics).map
      Diagnostic.sites).Perm
    (((ofRegistry options (.ofList ds)).furtherSites.filter fun p =>
      p.1 ∉ (Merged.ofRegistry options (.ofList ds)).collapsedSites options).map
        fun (site, leading) => (site, [leading])) := by
  have hfurther := perm_furtherSites_filter options ds
  have hreports := Merged.perm_ambiguities options ds
  rw [withKind_overloadAmbiguity]
  rw [if_pos h] at hreports
  generalize (Merged.ofRegistry options (.ofList ds)).collapsedSites options = gone at hfurther ⊢
  generalize Diagnostic.withKind .overloadAmbiguity
    (Merged.ofRegistry options (.ofList ds)).diagnostics = reports at hreports ⊢
  generalize (Merged.ofRegistry options (.ofList ds)).declarations = merged at hfurther hreports
  -- before names are looked up there is one report on each overload behind a first one
  have hsites : (merged.flatMap Declaration.ambiguities).map Diagnostic.sites
      = (merged.flatMap Declaration.furtherSites).map fun (site, leading) => (site, [leading]) := by
    rw [List.map_flatMap, List.map_flatMap]
    exact List.flatMap_congr fun d _ => d.map_ambiguities
  -- reports, their sites, and what is left of these when names are looked up
  calc (reports.filter fun report => report.site ∉ gone).map Diagnostic.sites
      = (reports.map Diagnostic.sites).filter fun p => p.1 ∉ gone := by
        rw [List.filter_map]
        rfl
    _ ~ ((merged.flatMap Declaration.ambiguities).map Diagnostic.sites).filter
          fun p => p.1 ∉ gone := (hreports.symm.map _).filter _
    _ = ((merged.flatMap Declaration.furtherSites).filter fun p => p.1 ∉ gone).map
          fun (site, leading) => (site, [leading]) := by
        rw [hsites, List.filter_map]
        rfl
    _ ~ _ := hfurther.symm.map _

/-- The overloads behind the first ones whose sites have collapsed overloads are the ones without a
report, so there is one on each if and only if there are none of them. -/
theorem ambiguities_withdrawn {options : Options} (h : options.reportOverloads = true)
    (ds : List Declaration) :
    let table := ofRegistry options (.ofList ds)
    let gone := (Merged.ofRegistry options (.ofList ds)).collapsedSites options
    let reports := Diagnostic.withKind .overloadAmbiguity table.diagnostics
    reports.length + (table.furtherSites.filter fun p => p.1 ∈ gone).length = table.furtherCount ∧
      (reports.length = table.furtherCount ↔ ∀ p ∈ table.furtherSites, p.1 ∉ gone) := by
  intro table gone reports
  have hlength : reports.length = (table.furtherSites.filter fun p => p.1 ∉ gone).length := by
    have hperm := (perm_sites_ambiguities h ds).length_eq
    rwa [List.length_map, List.length_map] at hperm
  constructor
  · have hsplit := table.furtherSites.length_eq_length_filter_add fun p => decide (p.1 ∈ gone)
    rw [hlength, ← length_furtherSites, hsplit, Nat.add_comm]
    simp only [decide_not]
  · rw [hlength, ← length_furtherSites, List.length_filter_eq_length_iff]
    simp only [decide_eq_true_iff]

end Table

/-! ### A file that is read twice -/

/-- A declaration of `f` in `Foo`, with parameters of these types. -/
def Record.ofCall (types : List String) : Record :=
  .member "Foo" "f" ⟨types.map fun type => .required "x" (some (.named type)), none⟩ none

/-- Two readings of a file.  Their records stand at the same sites, and of the second ones the last
is alike the one before it once its unknown name is taken for `any`. -/
def Fragment.rereadFile : List Fragment :=
  [⟨"index.d.ts", [.ofCall ["string"], .ofCall ["string", "string"]]⟩,
    ⟨"index.d.ts", [.ofCall ["A"], .ofCall ["B"]]⟩]

/-- The overload with two parameters is kept, but its report goes with that on the last one. -/
theorem Table.ambiguity_lost_of_rereadFile :
    let table := ofRegistry .standard (Fragment.rereadFile.foldl Registry.addFragment .empty)
    let reports := Diagnostic.withKind .overloadAmbiguity table.diagnostics
    let site (ordinal : UInt32) : Site := ⟨"index.d.ts", ordinal⟩
    table.furtherSites = [(site 1, site 0), (site 0, site 0)] ∧
      reports.map Diagnostic.sites = [(site 0, [site 0])] ∧
      reports.length ≠ table.furtherCount := by
  decide +kernel

theorem Table.ambiguities_withdrawn_rereadFile :
    let ds := Fragment.rereadFile.flatMap Fragment.declarations
    let table := ofRegistry .standard (.ofList ds)
    let gone := (Merged.ofRegistry .standard (.ofList ds)).collapsedSites .standard
    Options.standard.reportOverloads = true ∧
      (Diagnostic.withKind .overloadAmbiguity table.diagnostics).length
        + (table.furtherSites.filter fun p => p.1 ∈ gone).length = table.furtherCount ∧
      gone = [⟨"index.d.ts", 1⟩] :=
  ⟨rfl, (ambiguities_withdrawn rfl _).1, by decide +kernel⟩

end Overlay
