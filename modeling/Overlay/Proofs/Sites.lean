/-
Sites of overloads.

In a fragment each record has a site of its own, and so has each overload; in fragments of files
with different names no two overloads share a site.  From there on overloads are only left out, when
they are merged and when they collapse, so that a site still tells the overload:

* `Fragment.perm_overloadSites` — the overloads of a fragment stand at the sites of their records;
* `Fragment.nodup_overloadSites_flatMap` — no two overloads in fragments of different files share
  a site;
* `Merged.subperm_overloadSites`, `Table.perm_overloadSites` — what merging and looking names up
  leave of the sites;
* `Table.oneReportEach_of_fragments` — one report on each overload behind the first one of its
  member, and none on any other.
-/
import Overlay.Proofs.Withdrawal
import Mathlib.Data.List.Nodup

namespace Overlay

/-- The sites of all overloads of a declaration. -/
def Declaration.overloadSites (d : Declaration) : List Site :=
  d.overloads.map fun p => p.2.site

/-- Where no two overloads share a site, the site tells the key and the name. -/
theorem Declaration.key_name_of_site {ds : List Declaration}
    (hsites : (ds.flatMap overloadSites).Nodup) {d d' : Declaration} (hd : d ∈ ds) (hd' : d' ∈ ds)
    {p p' : String × Overload} (hp : p ∈ d.overloads) (hp' : p' ∈ d'.overloads)
    (hsame : p.2.site = p'.2.site) : d.key = d'.key ∧ p.1 = p'.1 := by
  have hplaces : ((ds.flatMap fun d => d.overloads.map fun p => ((d.key, p.1), p.2.site)).map
      Prod.snd).Nodup := by
    rw [List.map_flatMap]
    simp only [List.map_map]
    exact hsites
  have hin : ∀ {d p}, d ∈ ds → p ∈ d.overloads → ((d.key, p.1), p.2.site) ∈
      ds.flatMap fun d => d.overloads.map fun p => ((d.key, p.1), p.2.site) :=
    fun hd hp => List.mem_flatMap.mpr ⟨_, hd, List.mem_map_of_mem hp⟩
  have hplace := List.inj_on_of_nodup_map hplaces (hin hd hp) (hin hd' hp') hsame
  exact Prod.ext_iff.mp (congrArg Prod.fst hplace)

/-! ### Fragments -/

/-- Where a record that stands at a site puts an overload, if it declares one. -/
def Record.overloadSites (site : Site) : Record → List Site
  | .stub _ => []
  | .member _ _ _ _ => [site]

theorem Declaration.overloadSites_push (d : Declaration) (m : Member) :
    (d.push m).overloadSites = d.overloadSites ++ m.overloads.map Overload.site := by
  rw [overloadSites, overloadSites, overloads, overloads]
  show (((d.members ++ [m]).flatMap fun m => m.overloads.map fun o => (m.name, o)).map _) = _
  rw [List.flatMap_append, List.flatMap_singleton, List.map_append, List.map_map]
  rfl

namespace Fragment

theorem Groups.perm_overloadSites_add (groups : Groups) (site : Site) (record : Record) :
    ((groups.add site record).values.flatMap Declaration.overloadSites).Perm
      (groups.values.flatMap Declaration.overloadSites ++ record.overloadSites site) := by
  cases record with
  | stub name =>
    refine Assoc.perm_flatMap_values_alter _ rfl (fun d => ?_) groups
    exact (List.append_nil _).symm
  | member interfaceName memberName written home? =>
    refine Assoc.perm_flatMap_values_alter _ ?_ (fun d => ?_) groups
    · rw [Declaration.overloadSites_push]
      rfl
    · rw [Declaration.overloadSites_push]
      rfl

/-- The overloads of a fragment stand at the sites of the records that declare them. -/
theorem perm_overloadSites (fragment : Fragment) :
    (fragment.declarations.flatMap Declaration.overloadSites).Perm
      (fragment.records.zipIdx.flatMap fun (record, index) =>
        record.overloadSites ⟨fragment.file, index.toUInt32⟩) := by
  rw [declarations, groups]
  -- record by record: the groups have the sites of the records so far
  induction fragment.records.zipIdx using List.reverseRecOn with
  | nil => exact .refl _
  | append_singleton records record ih =>
    rw [List.foldl_append, List.flatMap_append, List.flatMap_singleton]
    exact (Groups.perm_overloadSites_add _ _ _).trans (ih.append_right _)

theorem file_of_mem_overloadSites {fragment : Fragment} {site : Site}
    (h : site ∈ fragment.declarations.flatMap Declaration.overloadSites) :
    site.file = fragment.file := by
  obtain ⟨⟨record, index⟩, -, hsite⟩ :=
    List.mem_flatMap.mp (fragment.perm_overloadSites.mem_iff.mp h)
  cases record with
  | stub name => exact absurd hsite List.not_mem_nil
  | member interfaceName memberName written home? =>
    rw [List.mem_singleton.mp hsite]

/-- As long as records can be counted, no two overloads of a fragment share a site. -/
theorem nodup_overloadSites {fragment : Fragment} (h : fragment.records.length < 2 ^ 32) :
    (fragment.declarations.flatMap Declaration.overloadSites).Nodup := by
  have hrecords : (fragment.records.zipIdx.map fun (_, index) =>
      (⟨fragment.file, index.toUInt32⟩ : Site)).Nodup := by
    have hrange : (fragment.records.zipIdx.map fun (_, index) =>
          (⟨fragment.file, index.toUInt32⟩ : Site))
        = (List.range fragment.records.length).map fun index =>
            ⟨fragment.file, index.toUInt32⟩ := by
      rw [List.range_eq_range', ← List.zipIdx_map_snd, List.map_map]
      rfl
    rw [hrange]
    refine List.Nodup.map_on (fun i hi j hj hsame => ?_) List.nodup_range
    -- below 2³² the numbers of records are kept as they are
    have hnumber : i % 2 ^ 32 = j % 2 ^ 32 :=
      congrArg (fun site : Site => site.ordinal.toNat) hsame
    have hi' := List.mem_range.mp hi
    have hj' := List.mem_range.mp hj
    omega
  -- the records of modules without a body bring no overload
  refine fragment.perm_overloadSites.nodup_iff.mpr (hrecords.sublist ?_)
  rw [List.map_eq_flatMap]
  refine List.Sublist.flatMap_right _ fun (record, index) _ => ?_
  cases record with
  | stub name => exact List.nil_sublist _
  | member interfaceName memberName written home? => exact .refl _

/-- No two overloads in fragments of files with different names share a site. -/
theorem nodup_overloadSites_flatMap {fragments : List Fragment}
    (hfiles : (fragments.map Fragment.file).Nodup)
    (hcount : ∀ fragment ∈ fragments, fragment.records.length < 2 ^ 32) :
    ((fragments.flatMap declarations).flatMap Declaration.overloadSites).Nodup := by
  rw [List.flatMap_assoc, List.nodup_flatMap]
  refine ⟨fun fragment hfragment => nodup_overloadSites (hcount fragment hfragment), ?_⟩
  refine (List.pairwise_map.mp hfiles).imp fun hne => ?_
  intro site hsite hsite'
  exact hne ((file_of_mem_overloadSites hsite).symm.trans (file_of_mem_overloadSites hsite'))

end Fragment

/-! ### Merged declarations -/

/-- What declarations say together stands at sites of theirs, and at none more often. -/
theorem Merge.subperm_overloadSites_union (key : Key) (ds : List Declaration) :
    (union key ds).overloadSites.Subperm (ds.flatMap Declaration.overloadSites) := by
  have hunion : (union key ds).overloadSites = (memberNames ds).flatMap fun name =>
      (Overload.firsts (overloadsNamed name ds)).map Overload.site := by
    rw [Declaration.overloadSites, Declaration.overloads, members_union, List.flatMap_map,
      List.map_flatMap]
    simp only [List.map_map, Function.comp_def]
  -- grouped by name, nothing is lost and nothing gained; of each group only the first ones are kept
  have hnamed : ((memberNames ds).flatMap fun name =>
      (overloadsNamed name ds).map Overload.site).Perm (ds.flatMap Declaration.overloadSites) := by
    have hgroups := perm_flatMap_filter Prod.fst
      (nodup_eraseDups ((ds.flatMap Declaration.overloads).map Prod.fst))
      (ds.flatMap Declaration.overloads) fun p hp =>
        List.mem_eraseDups.mpr (List.mem_map_of_mem hp)
    have hsites := hgroups.map fun p => p.2.site
    rw [eraseDups_map_fst_overloads, List.map_flatMap, List.map_flatMap] at hsites
    simp only [← named_flatMap_overloads, named, List.map_map]
    exact hsites
  rw [hunion]
  exact (List.Sublist.flatMap_right _ fun name _ =>
    (Overload.firsts_sublist _).map _).subperm.trans hnamed.subperm

/-- Merged declarations have sites of the registered ones, and none more often. -/
theorem Merged.subperm_overloadSites (options : Options) (ds : List Declaration) :
    ((ofRegistry options (.ofList ds)).declarations.flatMap Declaration.overloadSites).Subperm
      (ds.flatMap Declaration.overloadSites) := by
  have hkeys : ((ofRegistry options (.ofList ds)).declarations.flatMap
      Declaration.overloadSites).Subperm
      ((Registry.ofList ds).keys.flatMap fun key =>
        ((Registry.ofList ds).sites key).flatMap Declaration.overloadSites) := by
    rw [declarations_ofRegistry, reference, List.flatMap_map]
    refine (List.filter_sublist.flatMap _).subperm.trans (subperm_flatMap fun key _ => ?_)
    refine (Merge.subperm_overloadSites_union key _).trans ?_
    exact (List.filter_sublist.flatMap _).subperm
  rw [← List.flatMap_assoc] at hkeys
  exact hkeys.trans ((Registry.perm_flatMap_sites ds).flatMap_right _).subperm

/-! ### Tables -/

theorem Member.perm_sites_resolve (lookup : Lookup) (scope : Scope) (m : Member) :
    ((m.resolve lookup scope).overloads.map Overload.site ++ m.collapsedSites lookup scope).Perm
      (m.overloads.map Overload.site) := by
  have hsites := (m.resolved_perm lookup scope).map Overload.site
  rw [List.map_append, List.map_map] at hsites
  exact hsites

theorem Declaration.overloadSites_eq (d : Declaration) :
    d.overloadSites = d.members.flatMap fun m => m.overloads.map Overload.site := by
  rw [overloadSites, overloads, List.map_flatMap]
  simp only [List.map_map, Function.comp_def]

theorem Declaration.perm_overloadSites_resolve (lookup : Lookup) (d : Declaration) :
    ((d.resolve lookup).overloadSites ++ d.collapsedSites lookup).Perm d.overloadSites := by
  rw [overloadSites_eq, overloadSites_eq, members_resolve, collapsedSites, List.flatMap_map]
  refine (List.flatMap_append_perm _ _ _).trans (.flatMap_left _ fun m _ => ?_)
  exact m.perm_sites_resolve lookup d.key.scope

namespace Table

variable (options : Options) (ds : List Declaration)

/-- Each merged overload stays in the table, or it collapses. -/
theorem perm_overloadSites :
    ((ofRegistry options (.ofList ds)).declarations.flatMap Declaration.overloadSites
      ++ (Merged.ofRegistry options (.ofList ds)).collapsedSites options).Perm
    ((Merged.ofRegistry options (.ofList ds)).declarations.flatMap Declaration.overloadSites) := by
  rw [declarations_eq_map_resolve, Merged.collapsedSites, List.flatMap_map]
  refine (List.flatMap_append_perm _ _ _).trans (.flatMap_left _ fun d _ => ?_)
  exact d.perm_overloadSites_resolve _

/-- A table can be asked for each of its members. -/
theorem member?_of_mem {d : Declaration} {m : Member}
    (hd : d ∈ (ofRegistry options (.ofList ds)).declarations) (hm : m ∈ d.members) :
    ((ofRegistry options (.ofList ds)).get? d.key).bind (fun d => d.member? m.name) = some m := by
  rw [member?_ofRegistry]
  rw [declarations_ofRegistry, List.mem_map] at hd
  obtain ⟨key, -, rfl⟩ := hd
  rw [Declaration.members_ruled, Merge.members_union, List.map_map, List.mem_map] at hm
  obtain ⟨name, hname, rfl⟩ := hm
  exact if_neg ((Merge.mem_memberNames_iff name _).mp hname)

/-- An overload in a table stands where one of its key and name was registered. -/
theorem exists_of_mem {d : Declaration} {m : Member} {o : Overload}
    (hd : d ∈ (ofRegistry options (.ofList ds)).declarations) (hm : m ∈ d.members)
    (ho : o ∈ m.overloads) :
    ∃ d' ∈ ds, d'.key = d.key ∧ ∃ p ∈ d'.overloads, p.1 = m.name ∧ p.2.site = o.site := by
  rw [declarations_ofRegistry, List.mem_map] at hd
  obtain ⟨key, -, rfl⟩ := hd
  rw [Declaration.members_ruled, List.mem_map] at hm
  obtain ⟨merged, hmerged, rfl⟩ := hm
  obtain ⟨o', ho', rfl⟩ := List.mem_map.mp (Overload.mem_of_mem_firsts ho)
  obtain ⟨d', hd', m', hm', hname, hoverload⟩ := Merge.exists_mem_of_mem_union hmerged ho'
  have hsite := (List.mem_filter.mp hd').1
  refine ⟨d', ?_, Registry.key_of_mem_sites hsite, (m'.name, o'), ?_, hname, rfl⟩
  · rw [Registry.sites_ofList] at hsite
    exact (List.mem_filter.mp hsite).1
  · exact List.mem_flatMap.mpr ⟨m', hm', List.mem_map.mpr ⟨o', hoverload, rfl⟩⟩

end Table

/-! ### One report on each further overload -/

def Member.leadingSites (m : Member) : List Site :=
  m.overloads.head?.toList.map Overload.site

theorem Member.sites_eq (m : Member) :
    m.overloads.map Overload.site = m.leadingSites ++ m.furtherSites.map Prod.fst := by
  obtain ⟨name, overloads⟩ := m
  cases overloads with
  | nil => rfl
  | cons leading rest =>
    rw [leadingSites, furtherSites, List.map_map]
    rfl

theorem Declaration.perm_leadingSites (d : Declaration) :
    (d.members.flatMap Member.leadingSites ++ d.furtherSites.map Prod.fst).Perm
      d.overloadSites := by
  rw [overloadSites_eq, furtherSites, List.map_flatMap]
  refine (List.flatMap_append_perm _ _ _).trans (.flatMap_left _ fun m _ => ?_)
  rw [m.sites_eq]

namespace Table

/-- Of each member in a table there is the first overload, and there are those behind it. -/
theorem perm_leadingSites (table : Table) :
    (table.declarations.flatMap (fun d => d.members.flatMap Member.leadingSites)
      ++ table.furtherSites.map Prod.fst).Perm
    (table.declarations.flatMap Declaration.overloadSites) := by
  rw [furtherSites, List.map_flatMap]
  exact (List.flatMap_append_perm _ _ _).trans (.flatMap_left _ fun d _ => d.perm_leadingSites)

theorem mem_furtherSites_iff (table : Table) (p : Site × Site) : p ∈ table.furtherSites ↔
    ∃ d ∈ table.declarations, ∃ m ∈ d.members, ∃ leading rest, m.overloads = leading :: rest ∧
      ∃ o ∈ rest, p = (o.site, leading.site) := by
  -- a single member
  have hmember : ∀ m : Member, p ∈ m.furtherSites ↔ ∃ leading rest,
      m.overloads = leading :: rest ∧ ∃ o ∈ rest, p = (o.site, leading.site) := by
    intro m
    obtain ⟨name, overloads⟩ := m
    cases overloads with
    | nil => exact ⟨fun h => absurd h List.not_mem_nil, nofun⟩
    | cons leading rest =>
      rw [Member.furtherSites, List.mem_map]
      constructor
      · rintro ⟨o, ho, rfl⟩
        exact ⟨leading, rest, rfl, o, ho, rfl⟩
      · rintro ⟨leading', rest', heq, o, ho, rfl⟩
        obtain ⟨rfl, rfl⟩ := List.cons.inj heq
        exact ⟨o, ho, rfl⟩
  rw [furtherSites, List.mem_flatMap]
  simp only [Declaration.furtherSites, List.mem_flatMap, hmember]

/-- The sites of the overloads that a member in a table has. -/
def sitesOf (table : Table) (key : Key) (name : String) : List Site :=
  (((table.get? key).bind fun d => d.member? name).map fun m =>
    m.overloads.map Overload.site).getD []

/-- The reports on overloads that a table has at a site. -/
def reportsAt (table : Table) (site : Site) : List Diagnostic :=
  (Diagnostic.withKind .overloadAmbiguity table.diagnostics).filter fun report =>
    report.site = site

/-- Every overload has a site of its own.  Those behind the first ones of the members of a table
have a report each, with the site of the first one beside it, and other overloads have none. -/
structure OneReportEach (table : Table) (registered : List Declaration) : Prop where
  sites : (registered.flatMap Declaration.overloadSites).Nodup
  reports : ((Diagnostic.withKind .overloadAmbiguity table.diagnostics).map Diagnostic.sites).Perm
    (table.furtherSites.map fun (site, leading) => (site, [leading]))
  further : ∀ d ∈ table.declarations, ∀ m ∈ d.members, ∀ leading rest,
    m.overloads = leading :: rest → ∀ o ∈ rest, ∃ report, table.reportsAt o.site = [report] ∧
      report.related.map Diagnostic.Related.site = [leading.site]
  leading : ∀ d ∈ table.declarations, ∀ m ∈ d.members, ∀ leading ∈ m.overloads.head?,
    table.reportsAt leading.site = []
  /-- An overload that is not in its member was alike an earlier one, or its declaration was
  dropped. -/
  leftOut : ∀ d ∈ registered, ∀ p ∈ d.overloads, p.2.site ∉ table.sitesOf d.key p.1 →
    table.reportsAt p.2.site = []

section

variable (options : Options) {ds : List Declaration}
  (hsites : (ds.flatMap Declaration.overloadSites).Nodup)

include hsites

/-- In a table no two of the overloads share a site, and none has that of a collapsed one. -/
theorem nodup_overloadSites :
    ((ofRegistry options (.ofList ds)).declarations.flatMap Declaration.overloadSites
      ++ (Merged.ofRegistry options (.ofList ds)).collapsedSites options).Nodup :=
  (perm_overloadSites options ds).nodup_iff.mpr
    (nodup_of_subperm (Merged.subperm_overloadSites options ds) hsites)

/-- Where no two overloads share a site, each report stays with its overload. -/
theorem perm_sites_of_nodup (hreport : options.reportOverloads = true) :
    ((Diagnostic.withKind .overloadAmbiguity (ofRegistry options (.ofList ds)).diagnostics).map
      Diagnostic.sites).Perm
    ((ofRegistry options (.ofList ds)).furtherSites.map
      fun (site, leading) => (site, [leading])) := by
  have hstay : ∀ p ∈ (ofRegistry options (.ofList ds)).furtherSites,
      p.1 ∉ (Merged.ofRegistry options (.ofList ds)).collapsedSites options := by
    intro p hp hgone
    obtain ⟨-, -, hdisjoint⟩ := List.nodup_append.mp (nodup_overloadSites options hsites)
    have hkept : p.1 ∈ (ofRegistry options (.ofList ds)).declarations.flatMap
        Declaration.overloadSites :=
      (perm_leadingSites _).subset (List.mem_append_right _ (List.mem_map_of_mem hp))
    exact hdisjoint p.1 hkept p.1 hgone rfl
  have hreports := perm_sites_ambiguities hreport ds
  rwa [List.filter_eq_self.mpr fun p hp => decide_eq_true (hstay p hp)] at hreports

theorem nodup_leadingSites :
    ((ofRegistry options (.ofList ds)).declarations.flatMap
        (fun d => d.members.flatMap Member.leadingSites)
      ++ (ofRegistry options (.ofList ds)).furtherSites.map Prod.fst).Nodup := by
  have hkept := (List.nodup_append.mp (nodup_overloadSites options hsites)).1
  exact (perm_leadingSites _).nodup_iff.mpr hkept

theorem nodup_furtherSites :
    ((ofRegistry options (.ofList ds)).furtherSites.map Prod.fst).Nodup :=
  (List.nodup_append.mp (nodup_leadingSites options hsites)).2.1

theorem length_reportsAt (hreport : options.reportOverloads = true) (site : Site) :
    ((ofRegistry options (.ofList ds)).reportsAt site).length
      = if site ∈ (ofRegistry options (.ofList ds)).furtherSites.map Prod.fst then 1 else 0 := by
  have hperm := (perm_sites_of_nodup options hsites hreport).map Prod.fst
  rw [List.map_map, List.map_map] at hperm
  have hcount := hperm.count_eq site
  rw [List.count, List.countP_map] at hcount
  rw [← (nodup_furtherSites options hsites).count, reportsAt, ← List.countP_eq_length_filter]
  exact hcount

/-- A table of declarations whose overloads have sites of their own. -/
theorem oneReportEach_of_nodup (hreport : options.reportOverloads = true) :
    (ofRegistry options (.ofList ds)).OneReportEach ds where
  sites := hsites
  reports := perm_sites_of_nodup options hsites hreport
  further := by
    intro d hd m hm leading rest hoverloads o ho
    have hfurther := (mem_furtherSites_iff _ _).mpr
      ⟨d, hd, m, hm, leading, rest, hoverloads, o, ho, rfl⟩
    have hlength := length_reportsAt options hsites hreport o.site
    rw [if_pos (List.mem_map_of_mem hfurther), List.length_eq_one_iff] at hlength
    obtain ⟨report, hreports⟩ := hlength
    refine ⟨report, hreports, ?_⟩
    -- what the report shows is one of the pairs of sites, and the site tells which
    obtain ⟨hmem, hsite⟩ := List.mem_filter.mp (hreports ▸ List.mem_singleton_self report)
    have hshown := (perm_sites_of_nodup options hsites hreport).subset (List.mem_map_of_mem hmem)
    obtain ⟨p, hp, hpair⟩ := List.mem_map.mp hshown
    have hsame : p = (o.site, leading.site) := by
      refine List.inj_on_of_nodup_map (nodup_furtherSites options hsites) hp hfurther ?_
      exact (congrArg Prod.fst hpair).trans (of_decide_eq_true hsite)
    rw [hsame] at hpair
    exact (congrArg Prod.snd hpair).symm
  leading := by
    intro d hd m hm leading hleading
    obtain ⟨-, -, hdisjoint⟩ := List.nodup_append.mp (nodup_leadingSites options hsites)
    -- no site leads in one member and stands behind the first in another
    have hsite : leading.site ∈ m.leadingSites :=
      List.mem_map_of_mem (Option.mem_toList.mpr hleading)
    rw [← List.length_eq_zero_iff, length_reportsAt options hsites hreport]
    refine if_neg fun hfurther => hdisjoint leading.site ?_ leading.site hfurther rfl
    exact List.mem_flatMap.mpr ⟨d, hd, List.mem_flatMap.mpr ⟨m, hm, hsite⟩⟩
  leftOut := by
    intro d hd p hp hout
    rw [← List.length_eq_zero_iff, length_reportsAt options hsites hreport]
    refine if_neg fun hfurther => hout ?_
    obtain ⟨pair, hpair, hsite⟩ := List.mem_map.mp hfurther
    obtain ⟨d', hd', m, hm, leading, rest, hoverloads, o, ho, rfl⟩ :=
      (mem_furtherSites_iff _ _).mp hpair
    -- the overload that the report is on has the key and the name of the one at its site
    have ho' : o ∈ m.overloads := hoverloads ▸ List.mem_cons_of_mem leading ho
    obtain ⟨d'', hd'', hkey, p', hp', hname, hsite'⟩ := exists_of_mem options ds hd' hm ho'
    obtain ⟨hkey', hname'⟩ := Declaration.key_name_of_site hsites hd hd'' hp hp'
      (hsite.symm.trans hsite'.symm)
    have hmember := member?_of_mem options ds hd' hm
    rw [sitesOf, hkey', hkey, hname', hname, hmember, ← hsite]
    exact List.mem_map_of_mem ho'

end

/-- The table of fragments of files with different names. -/
theorem oneReportEach_of_fragments {options : Options} {fragments : List Fragment}
    (hreport : options.reportOverloads = true)
    (hfiles : (fragments.map Fragment.file).Nodup)
    (hcount : ∀ fragment ∈ fragments, fragment.records.length < 2 ^ 32) :
    (ofRegistry options (fragments.foldl Registry.addFragment .empty)).OneReportEach
      (fragments.flatMap Fragment.declarations) := by
  rw [Registry.foldl_addFragment]
  exact oneReportEach_of_nodup options
    (Fragment.nodup_overloadSites_flatMap hfiles hcount) hreport

end Table

/-- Two files that declare `f` in `Foo`.  The first overload of the second file is alike the second
one of the first file once their unknown names are taken for `any`. -/
def Fragment.twoFiles : List Fragment :=
  [⟨"a.d.ts", [.ofCall ["string"], .ofCall ["A"]]⟩,
    ⟨"b.d.ts", [.ofCall ["B"], .ofCall ["string", "string"]]⟩]

theorem Table.oneReportEach_twoFiles :
    let table := ofRegistry .standard (Fragment.twoFiles.foldl Registry.addFragment .empty)
    Options.standard.reportOverloads = true ∧
      (Fragment.twoFiles.map Fragment.file).Nodup ∧
      (∀ fragment ∈ Fragment.twoFiles, fragment.records.length < 2 ^ 32) ∧
      table.OneReportEach (Fragment.twoFiles.flatMap Fragment.declarations) ∧
      table.sitesOf (.ofGlobal "Foo") "f" = [⟨"a.d.ts", 0⟩, ⟨"a.d.ts", 1⟩, ⟨"b.d.ts", 1⟩] := by
  have hfiles : (Fragment.twoFiles.map Fragment.file).Nodup := by decide +kernel
  have hcount : ∀ fragment ∈ Fragment.twoFiles, fragment.records.length < 2 ^ 32 := by
    decide +kernel
  exact ⟨rfl, hfiles, hcount, oneReportEach_of_fragments rfl hfiles hcount, by decide +kernel⟩

end Overlay
