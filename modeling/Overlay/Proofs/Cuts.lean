/-
Files cut elsewhere.

The same records can be shared out among files in different ways.  If no signature is malformed,
this makes other sites and nothing more: a table without its sites does not tell where one file ends
and the next begins.

* `Registry.recut_of_fragments` — however records are cut into files, what is registered is the same
  but for how it is shared out among declarations;
* `Table.mem_collapsedSites_iff` — where sites are told apart, a site is gone if its overload is;
* `Table.filter_furtherReports` — so which reports are left depends on signatures alone;
* `Table.unsited_eq_of_cuts` — the tables of two cuts;
* `Table.unsited_ne_paddedFile` — a file with so many records that their numbers come again.
-/
import Overlay.Proofs.Fragment
import Overlay.Proofs.Isolation
import Overlay.Proofs.Numbers
import Overlay.Proofs.Sites

namespace Overlay

/-! ### Registries that say the same -/

/-- What is registered under a key, without sites. -/
def Registry.said (registry : Registry) (key : Key) : List (String × Overload) :=
  ((registry.sites key).flatMap Declaration.overloads).map Overload.unsitedPair

/-- Registries with the same keys in the same order, in which the same is said under each key in the
same order, shared out among well-formed declarations in different ways. -/
structure Registry.Recut (registry registry' : Registry) : Prop where
  keys : registry.keys = registry'.keys
  kinds : ∀ key, (∀ d ∈ registry.sites key, d.body = .stub)
    ↔ ∀ d ∈ registry'.sites key, d.body = .stub
  said : ∀ key, registry.said key = registry'.said key
  wellFormed : ∀ key, ∀ d ∈ registry.sites key, d.WellFormed
  wellFormed' : ∀ key, ∀ d ∈ registry'.sites key, d.WellFormed

/-- The table without the reports of a kind. -/
def Table.without (kind : Diagnostic.Kind) (table : Table) : Table :=
  { table with diagnostics := table.diagnostics.filter fun report => report.kind ≠ kind }

/-- The overload with types in the place of its names. -/
def Overload.ruled (rule : String → Ty) (o : Overload) : Overload :=
  { o with signature := o.signature.replace rule }

namespace Merge

/-- The report on an overload behind earlier ones of its name that is not alike any of them, and
does not become so when names are looked up. -/
def lastingReport? (rule : String → Ty) (key : Key) (name : String) (o : Overload)
    (earlier : List Overload) : Option Diagnostic :=
  if (o.ruled rule).isIn (earlier.map (Overload.ruled rule)) then none
  else furtherReport? key name o earlier

/-- Those reports, in the order of the overloads. -/
def lastingReports (rule : String → Ty) (key : Key) (ps : List (String × Overload)) :
    List Diagnostic :=
  ps.zipIdx.filterMap fun ((name, o), i) => lastingReport? rule key name o (named name (ps.take i))

end Merge

/-! ### Cuts -/

namespace Registry

variable (fragments : List Fragment)

theorem keys_of_fragments : (ofList (fragments.flatMap Fragment.declarations)).keys
    = ((fragments.flatMap Fragment.records).map Record.key).eraseDups := by
  rw [keys_ofList, List.map_flatMap, List.map_flatMap, ← eraseDups_flatMap_eraseDups]
  simp only [Fragment.keys_declarations]
  exact eraseDups_flatMap_eraseDups _ _

/-- A key has stubs only if its records declare a module without a body. -/
theorem kinds_of_fragments (key : Key) :
    (∀ d ∈ (ofList (fragments.flatMap Fragment.declarations)).sites key, d.body = .stub)
      ↔ ∀ record ∈ fragments.flatMap Fragment.records, record.key = key →
          record.isStub = true := by
  -- by `Fragment.exists_declaration_iff`, declarations and records of a key have the same kinds
  have hstub : ∀ d : Declaration, d.body = .stub ↔ d.isStub = true := fun d => by
    rw [Declaration.isStub, beq_iff_eq]
  rw [sites_ofList]
  constructor
  · intro h record hrecord hkey
    obtain ⟨fragment, hfragment, hrecord⟩ := List.mem_flatMap.mp hrecord
    obtain ⟨d, hd, hdkey, hkind⟩ := (fragment.exists_declaration_iff key record.isStub).mpr
      ⟨record, hrecord, hkey, rfl⟩
    have hmem := List.mem_flatMap.mpr ⟨fragment, hfragment, hd⟩
    rw [← hkind, ← hstub]
    exact h d (List.mem_filter.mpr ⟨hmem, decide_eq_true hdkey⟩)
  · intro h d hd
    obtain ⟨hmem, hkey⟩ := List.mem_filter.mp hd
    obtain ⟨fragment, hfragment, hd⟩ := List.mem_flatMap.mp hmem
    obtain ⟨record, hrecord, hrecordKey, hkind⟩ := (fragment.exists_declaration_iff key d.isStub).mp
      ⟨d, hd, of_decide_eq_true hkey, rfl⟩
    rw [hstub, ← hkind]
    exact h record (List.mem_flatMap.mpr ⟨fragment, hfragment, hrecord⟩) hrecordKey

theorem said_of_fragments (key : Key) :
    (ofList (fragments.flatMap Fragment.declarations)).said key
      = ((fragments.flatMap Fragment.records).filter fun record => record.key = key).flatMap
          Record.overloads := by
  rw [said, sites_ofList, List.filter_flatMap, List.filter_flatMap, List.flatMap_assoc,
    List.flatMap_assoc, List.map_flatMap]
  exact List.flatMap_congr fun fragment _ => fragment.overloads_declarations key

theorem wellFormed_of_fragments
    (h : ∀ record ∈ fragments.flatMap Fragment.records, record.WellFormed) (key : Key) :
    ∀ d ∈ (ofList (fragments.flatMap Fragment.declarations)).sites key, d.WellFormed := by
  intro d hd
  rw [sites_ofList] at hd
  obtain ⟨fragment, hfragment, hd⟩ := List.mem_flatMap.mp (List.mem_filter.mp hd).1
  refine fragment.wellFormed_declarations (fun record hrecord => h record ?_) d hd
  exact List.mem_flatMap.mpr ⟨fragment, hfragment, hrecord⟩

/-- The records alone tell what is registered. -/
theorem recut_of_fragments {fragments fragments' : List Fragment}
    (hrecords : fragments.flatMap Fragment.records = fragments'.flatMap Fragment.records)
    (hwell : ∀ record ∈ fragments.flatMap Fragment.records, record.WellFormed) :
    Recut (ofList (fragments.flatMap Fragment.declarations))
      (ofList (fragments'.flatMap Fragment.declarations)) where
  keys := by rw [keys_of_fragments, keys_of_fragments, hrecords]
  kinds := by
    intro key
    rw [kinds_of_fragments, kinds_of_fragments, hrecords]
  said := by
    intro key
    rw [said_of_fragments, said_of_fragments, hrecords]
  wellFormed := wellFormed_of_fragments fragments hwell
  wellFormed' := wellFormed_of_fragments fragments' (hrecords ▸ hwell)

end Registry

/-! ### What is merged -/

/-- What declarations say together depends on what they say one after the other. -/
theorem Merge.unsited_union_congr (key : Key) {ds ds' : List Declaration}
    (hkinds : (∀ d ∈ ds, d.body = .stub) ↔ ∀ d ∈ ds', d.body = .stub)
    (hsaid : (ds.flatMap Declaration.overloads).map Overload.unsitedPair
      = (ds'.flatMap Declaration.overloads).map Overload.unsitedPair) :
    (union key ds).unsited = (union key ds').unsited := by
  -- what is said tells the members, and under each name its overloads
  have hnames : memberNames ds = memberNames ds' := by
    have hfst := congrArg (List.map Prod.fst) hsaid
    rw [List.map_map, List.map_map] at hfst
    rw [← eraseDups_map_fst_overloads, ← eraseDups_map_fst_overloads]
    exact congrArg List.eraseDups hfst
  have hmember : ∀ name, (Overload.firsts (overloadsNamed name ds)).map Overload.unsited
      = (Overload.firsts (overloadsNamed name ds')).map Overload.unsited := by
    intro name
    have hnamed := congrArg (named name) hsaid
    rw [named_map_unsitedPair, named_map_unsitedPair, named_flatMap_overloads,
      named_flatMap_overloads] at hnamed
    rw [← Overload.firsts_map_unsited, ← Overload.firsts_map_unsited, hnamed]
  have hmembers : ((memberNames ds).map fun name =>
        (⟨name, Overload.firsts (overloadsNamed name ds)⟩ : Member)).map Member.unsited
      = ((memberNames ds').map fun name =>
        (⟨name, Overload.firsts (overloadsNamed name ds')⟩ : Member)).map Member.unsited := by
    rw [hnames, List.map_map, List.map_map]
    refine List.map_congr_left fun name _ => ?_
    exact congrArg (Member.mk name) (hmember name)
  -- the sum of stubs is a stub; any other has the members
  by_cases hstub : ∀ d ∈ ds, d.body = .stub
  · rw [union, union, if_pos hstub, if_pos (hkinds.mp hstub)]
    rfl
  · rw [union, union, if_neg hstub, if_neg fun h => hstub (hkinds.mpr h)]
    rw [Declaration.unsited, Declaration.unsited]
    simp only [hmembers]

/-- Well-formed declarations bring no reports on malformed signatures. -/
theorem Merge.malformedReports_eq_nil (key : Key) {ds : List Declaration}
    (h : ∀ d ∈ ds, d.WellFormed) : malformedReports key ds = [] := by
  refine List.flatMap_eq_nil_iff.mpr fun d hd => List.flatMap_eq_nil_iff.mpr fun m hm => ?_
  refine List.filterMap_eq_nil_iff.mpr fun o ho => ?_
  rw [h d hd m hm o ho, Option.map_none]

namespace Registry

variable {ds : List Declaration} (h : ∀ key, ∀ d ∈ (ofList ds).sites key, d.WellFormed)

include h

theorem wellFormed_eq_sites (key : Key) : (ofList ds).wellFormed key = (ofList ds).sites key :=
  List.filter_eq_self.mpr fun d hd => decide_eq_true (h key d hd)

theorem keys_merged (options : Options) :
    (Merged.ofRegistry options (.ofList ds)).keys = (ofList ds).keys := by
  rw [Merged.keys_ofRegistry]
  refine List.filter_eq_self.mpr fun key hkey => ?_
  rw [keys_ofList, List.mem_eraseDups, List.mem_map] at hkey
  obtain ⟨d, hd, rfl⟩ := hkey
  rw [wellFormed_eq_sites h, sites_ofList, decide_eq_true_iff]
  exact List.ne_nil_of_mem (List.mem_filter.mpr ⟨hd, decide_eq_true rfl⟩)

theorem diagnostics_merged (options : Options) :
    (Merged.ofRegistry options (.ofList ds)).diagnostics
      = if options.reportOverloads then (ofList ds).keys.flatMap fun key =>
          Merge.furtherReports key (((ofList ds).sites key).flatMap Declaration.overloads)
        else [] := by
  rw [Merged.diagnostics_ofRegistry, Merged.reference]
  split
  · refine List.flatMap_congr fun key _ => ?_
    rw [Merge.malformedReports_eq_nil key (h key), wellFormed_eq_sites h, List.nil_append]
  · refine List.flatMap_eq_nil_iff.mpr fun key _ => ?_
    rw [Merge.malformedReports_eq_nil key (h key), List.nil_append]

end Registry

section

variable {options : Options} {ds ds' : List Declaration}

namespace Registry.Recut

variable (h : Registry.Recut (.ofList ds) (.ofList ds'))

include h

theorem keys_merged_eq : (Merged.ofRegistry options (.ofList ds)).keys
    = (Merged.ofRegistry options (.ofList ds')).keys := by
  rw [Registry.keys_merged h.wellFormed, Registry.keys_merged h.wellFormed', h.keys]

theorem typeIn_eq : Table.typeIn options (.ofList ds) = Table.typeIn options (.ofList ds') := by
  rw [Table.typeIn, Table.typeIn, h.keys_merged_eq]

theorem unsited_merged_eq :
    (Merged.ofRegistry options (.ofList ds)).declarations.map Declaration.unsited
      = (Merged.ofRegistry options (.ofList ds')).declarations.map Declaration.unsited := by
  rw [Merged.declarations_eq_map_keys, Merged.declarations_eq_map_keys, h.keys_merged_eq,
    List.map_map, List.map_map]
  refine List.map_congr_left fun key _ => ?_
  refine Merge.unsited_union_congr key ?_ ?_
  · rw [Registry.wellFormed_eq_sites h.wellFormed, Registry.wellFormed_eq_sites h.wellFormed']
    exact h.kinds key
  · rw [Registry.wellFormed_eq_sites h.wellFormed, Registry.wellFormed_eq_sites h.wellFormed']
    exact h.said key

theorem unsited_declarations_eq :
    (Table.ofRegistry options (.ofList ds)).declarations.map Declaration.unsited
      = (Table.ofRegistry options (.ofList ds')).declarations.map Declaration.unsited := by
  have hruled : ∀ ds, (Table.ofRegistry options (.ofList ds)).declarations.map Declaration.unsited
      = ((Merged.ofRegistry options (.ofList ds)).declarations.map Declaration.unsited).map
          (Declaration.ruled (Table.typeIn options (.ofList ds))) := by
    intro ds
    rw [Table.declarations_ofRegistry, Merged.declarations_eq_map_keys, Merged.keys_ofRegistry,
      List.map_map, List.map_map, List.map_map]
    exact List.map_congr_left fun key _ => Declaration.unsited_ruled _ _
  rw [hruled, hruled, h.unsited_merged_eq, h.typeIn_eq]

theorem unsited_ruleReports_eq :
    (Lookup.ruleReports (Merged.ofRegistry options (.ofList ds)).keys options.acrossModules
        (Merged.ofRegistry options (.ofList ds)).declarations).map Diagnostic.unsited
      = (Lookup.ruleReports (Merged.ofRegistry options (.ofList ds')).keys options.acrossModules
        (Merged.ofRegistry options (.ofList ds')).declarations).map Diagnostic.unsited := by
  rw [Lookup.map_unsited_ruleReports, Lookup.map_unsited_ruleReports, h.unsited_merged_eq,
    h.keys_merged_eq]

end Registry.Recut

end

/-! ### Which reports are left -/

namespace Overload

/-- What is kept of a list stands for it when names are looked up. -/
theorem isIn_map_ruled_firsts (rule : String → Ty) (o : Overload) (os : List Overload) :
    o.isIn ((firsts os).map (ruled rule)) = o.isIn (os.map (ruled rule)) := by
  rw [Bool.eq_iff_iff, isIn_iff, isIn_iff]
  constructor
  · rintro ⟨other, hother, halike⟩
    obtain ⟨first, hfirst, rfl⟩ := List.mem_map.mp hother
    exact ⟨_, List.mem_map_of_mem (mem_of_mem_firsts hfirst), halike⟩
  · rintro ⟨other, hother, halike⟩
    obtain ⟨a, ha, rfl⟩ := List.mem_map.mp hother
    have hin : a.isIn os = true := isIn_of_mem ha
    rw [← isIn_firsts] at hin
    obtain ⟨first, hfirst, hsame⟩ := (isIn_iff a _).mp hin
    exact ⟨_, List.mem_map_of_mem hfirst,
      Signature.alike_trans (Signature.alike_replace rule hsame) halike⟩

theorem exists_firsts_eq {o : Overload} {before : List Overload} (h : ¬ o.isIn before = true)
    (behind : List Overload) :
    ∃ rest, firsts (before ++ o :: behind) = firsts before ++ o :: rest := by
  have hprefix := firsts_prefix (before ++ [o]) behind
  rw [firsts_concat, if_neg h, List.append_assoc, List.singleton_append] at hprefix
  obtain ⟨rest, hrest⟩ := hprefix
  exact ⟨rest, by rw [← hrest, List.append_assoc, List.singleton_append]⟩

end Overload

theorem Merge.site_of_furtherReport? {key : Key} {name : String} {o : Overload}
    {earlier : List Overload} {report : Diagnostic}
    (h : furtherReport? key name o earlier = some report) :
    report.site = o.site ∧ ¬ o.isIn earlier = true := by
  rw [furtherReport?_eq] at h
  rw [← Overload.isIn_firsts]
  generalize Overload.firsts earlier = others at h ⊢
  cases others with
  | nil => simp [Overload.ambiguity?] at h
  | cons leading rest =>
    rw [Overload.ambiguity?] at h
    split at h
    · exact absurd h (by simp)
    next hnew =>
      rw [← Option.some.inj h]
      exact ⟨rfl, hnew⟩

/-- An overload that is reported is in its member, behind those of the earlier ones that are
kept. -/
theorem Merge.exists_member_of_furtherReport? {key : Key} {ds : List Declaration} {name : String}
    {o : Overload} {i : Nat} {report : Diagnostic}
    (hplace : (ds.flatMap Declaration.overloads)[i]? = some (name, o))
    (hreport : furtherReport? key name o (named name ((ds.flatMap Declaration.overloads).take i))
      = some report) :
    ∃ m ∈ (union key ds).members, ∃ rest, m.overloads
      = Overload.firsts (named name ((ds.flatMap Declaration.overloads).take i)) ++ o :: rest := by
  obtain ⟨hi, hget⟩ := List.getElem?_eq_some_iff.mp hplace
  -- the overloads of the name, in front of this one and behind it
  have hnamed : overloadsNamed name ds
      = named name ((ds.flatMap Declaration.overloads).take i)
        ++ o :: named name ((ds.flatMap Declaration.overloads).drop (i + 1)) := by
    rw [← named_flatMap_overloads]
    conv_lhs => rw [← List.take_append_drop i (ds.flatMap Declaration.overloads),
      ← List.getElem_cons_drop hi, hget]
    simp [named]
  obtain ⟨rest, hrest⟩ := Overload.exists_firsts_eq (site_of_furtherReport? hreport).2
    (named name ((ds.flatMap Declaration.overloads).drop (i + 1)))
  refine ⟨⟨name, Overload.firsts (overloadsNamed name ds)⟩, ?_, rest, hnamed ▸ hrest⟩
  rw [members_union]
  refine List.mem_map_of_mem ((mem_memberNames_iff name ds).mpr ?_)
  rw [hnamed]
  exact List.append_ne_nil_of_right_ne_nil _ (List.cons_ne_nil o _)

theorem Merge.map_unsited_lastingReports (rule : String → Ty) (key : Key)
    (ps : List (String × Overload)) : (lastingReports rule key ps).map Diagnostic.unsited
      = lastingReports rule key (ps.map Overload.unsitedPair) := by
  rw [lastingReports, lastingReports, List.zipIdx_map, List.filterMap_map, List.map_filterMap]
  refine List.filterMap_congr fun ⟨⟨name, o⟩, i⟩ _ => ?_
  show (lastingReport? rule key name o (named name (ps.take i))).map Diagnostic.unsited
    = lastingReport? rule key name o.unsited
        (named name ((ps.map Overload.unsitedPair).take i))
  rw [← List.map_take, named_map_unsitedPair, lastingReport?, lastingReport?]
  -- whether two overloads become alike does not depend on their sites
  have hin : (o.unsited.ruled rule).isIn
        (((named name (ps.take i)).map Overload.unsited).map (Overload.ruled rule))
      = (o.ruled rule).isIn ((named name (ps.take i)).map (Overload.ruled rule)) := by
    rw [← Overload.isIn_unsited (o.ruled rule), List.map_map, List.map_map]
    rfl
  rw [hin]
  split
  · rfl
  · exact map_unsited_furtherReport? key name o _

namespace Table

variable (options : Options) {ds : List Declaration}

/-- Where no two overloads share a site, a site is gone if its overload has become alike one in
front. -/
theorem mem_collapsedSites_iff (hsites : (ds.flatMap Declaration.overloadSites).Nodup) {key : Key}
    {d : Declaration} {m : Member} {front behind : List Overload} {o : Overload}
    (hd : d ∈ (Merged.ofRegistry options (.ofList ds)).declarations) (hkey : d.key = key)
    (hm : m ∈ d.members) (hoverloads : m.overloads = front ++ o :: behind) :
    o.site ∈ (Merged.ofRegistry options (.ofList ds)).collapsedSites options
      ↔ (o.ruled (typeIn options (.ofList ds) key.scope)).isIn
          (front.map (Overload.ruled (typeIn options (.ofList ds) key.scope))) = true := by
  subst hkey
  let lookup := (Merged.ofRegistry options (.ofList ds)).lookup options
  -- a lookup in the table gives names the types that the rule gives them
  have hresolve : Overload.resolve lookup d.key.scope
      = Overload.ruled (typeIn options (.ofList ds) d.key.scope) := by
    funext o
    exact Overload.resolve_eq _ _ _ o
  have hfirsts := Merged.firsts_overloads hd hm
  rw [← hresolve]
  constructor
  · intro hgone
    by_contra hin
    -- the overload stays in the table, so that its site is not one of those that are gone
    have hplace := m.getElem?_resolve lookup d.key.scope hfirsts hoverloads hin
    have hstays : o.site ∈ (ofRegistry options (.ofList ds)).declarations.flatMap
        Declaration.overloadSites := by
      rw [declarations_eq_map_resolve]
      refine List.mem_flatMap.mpr ⟨d.resolve lookup, List.mem_map_of_mem hd, ?_⟩
      rw [Declaration.overloadSites_eq, Declaration.members_resolve]
      refine List.mem_flatMap.mpr ⟨m.resolve lookup d.key.scope, List.mem_map_of_mem hm, ?_⟩
      exact List.mem_map.mpr ⟨_, List.mem_of_getElem? hplace, rfl⟩
    -- both stand among the sites of overloads, of which none comes twice
    obtain ⟨-, -, hdisjoint⟩ := List.nodup_append.mp (nodup_overloadSites options hsites)
    exact hdisjoint o.site hstays o.site hgone rfl
  · intro hin
    refine List.mem_flatMap.mpr ⟨d, hd, List.mem_flatMap.mpr ⟨m, hm, ?_⟩⟩
    exact m.mem_collapsedSites lookup d.key.scope hfirsts hoverloads hin

/-- Where no two overloads share a site, the reports that are left are the lasting ones. -/
theorem filter_furtherReports (hsites : (ds.flatMap Declaration.overloadSites).Nodup) (key : Key) :
    (Merge.furtherReports key
        (((Registry.ofList ds).wellFormed key).flatMap Declaration.overloads)).filter (fun report =>
          report.site ∉ (Merged.ofRegistry options (.ofList ds)).collapsedSites options)
      = Merge.lastingReports (typeIn options (.ofList ds) key.scope) key
          (((Registry.ofList ds).wellFormed key).flatMap Declaration.overloads) := by
  rw [Merge.furtherReports, Merge.lastingReports, List.filter_filterMap]
  refine List.filterMap_congr fun numbered hmem => ?_
  obtain ⟨⟨name, o⟩, i⟩ := numbered
  have hplace := List.mk_mem_zipIdx_iff_getElem?.mp hmem
  show (Merge.furtherReport? key name o (Merge.named name (List.take i _))).filter _
    = Merge.lastingReport? _ key name o (Merge.named name (List.take i _))
  rw [Merge.lastingReport?]
  -- where a report is made, its overload stands in the member of its name
  cases hreport : Merge.furtherReport? key name o (Merge.named name (List.take i
      (((Registry.ofList ds).wellFormed key).flatMap Declaration.overloads))) with
  | none => rw [ite_self]; rfl
  | some report =>
    obtain ⟨m, hm, rest, hoverloads⟩ := Merge.exists_member_of_furtherReport? hplace hreport
    have hne : (Registry.ofList ds).wellFormed key ≠ [] := by
      intro hnil
      rw [hnil] at hplace
      exact absurd hplace (by simp)
    have hd : Merge.union key ((Registry.ofList ds).wellFormed key)
        ∈ (Merged.ofRegistry options (.ofList ds)).declarations := by
      rw [Merged.declarations_eq_map_keys]
      exact List.mem_map_of_mem ((Merged.mem_keys_ofRegistry options ds key).mpr hne)
    have hkey : (Merge.union key ((Registry.ofList ds).wellFormed key)).key = key := rfl
    -- its site is gone if and only if the overload becomes alike one in front of it
    have hgone := mem_collapsedSites_iff options hsites hd hkey hm hoverloads
    rw [Overload.isIn_map_ruled_firsts] at hgone
    rw [Option.filter_some, (Merge.site_of_furtherReport? hreport).1, decide_not]
    by_cases hsite : o.site ∈ (Merged.ofRegistry options (.ofList ds)).collapsedSites options
    · rw [if_pos (hgone.mp hsite), decide_eq_true hsite]
      rfl
    · rw [if_neg (mt hgone.mpr hsite), decide_eq_false hsite]
      rfl

end Table

/-! ### Tables of cuts -/

namespace Table

variable {options : Options} {ds ds' : List Declaration}

/-- The table of well-formed declarations; where no two overloads share a site, what is reported on
overloads does not depend on sites, either. -/
theorem unsited_diagnostics (hwell : ∀ key, ∀ d ∈ (Registry.ofList ds).sites key, d.WellFormed)
    (hsites : (ds.flatMap Declaration.overloadSites).Nodup) :
    (ofRegistry options (.ofList ds)).diagnostics.map Diagnostic.unsited
      = (if options.reportOverloads then (Registry.ofList ds).keys.flatMap fun key =>
          Merge.lastingReports (typeIn options (.ofList ds) key.scope) key
            ((Registry.ofList ds).said key)
        else []) ++
        (Lookup.ruleReports (Merged.ofRegistry options (.ofList ds)).keys options.acrossModules
          (Merged.ofRegistry options (.ofList ds)).declarations).map Diagnostic.unsited := by
  rw [diagnostics_ofRegistry, List.map_append, Registry.diagnostics_merged hwell]
  congr 1
  split
  · rw [List.filter_flatMap, List.map_flatMap]
    refine List.flatMap_congr fun key _ => ?_
    rw [Registry.said, ← Merge.map_unsited_lastingReports, ← Registry.wellFormed_eq_sites hwell,
      ← filter_furtherReports options hsites]
    congr 1
    -- all of these are reports on overloads, so that the site alone decides
    refine List.filter_congr fun report hreport => ?_
    simp [Diagnostic.stands, Merge.kind_of_mem_furtherReports hreport]
  · rfl

/-- Beside overloads, nothing is reported on well-formed declarations but names. -/
theorem filter_kind_ne_overloadAmbiguity
    (hwell : ∀ key, ∀ d ∈ (Registry.ofList ds).sites key, d.WellFormed) :
    ((ofRegistry options (.ofList ds)).diagnostics.filter fun r => r.kind ≠ .overloadAmbiguity)
      = Lookup.ruleReports (Merged.ofRegistry options (.ofList ds)).keys options.acrossModules
          (Merged.ofRegistry options (.ofList ds)).declarations := by
  -- without flaws, a merge reports on overloads only
  have hmerged : ∀ report ∈ (Merged.ofRegistry options (.ofList ds)).diagnostics,
      report.kind = .overloadAmbiguity := by
    intro report hreport
    rw [Registry.diagnostics_merged hwell] at hreport
    split at hreport
    · obtain ⟨key, -, hreport⟩ := List.mem_flatMap.mp hreport
      exact Merge.kind_of_mem_furtherReports hreport
    · exact absurd hreport List.not_mem_nil
  rw [diagnostics_ofRegistry, List.filter_append,
    Diagnostic.filter_kind_ne_eq_nil fun report hreport =>
      hmerged report (List.mem_of_mem_filter hreport),
    List.nil_append]
  exact Diagnostic.filter_kind_ne_eq_self (fun _ => Lookup.kind_of_mem_ruleReports) (by decide)

section

variable (h : Registry.Recut (.ofList ds) (.ofList ds'))

include h

/-- Beside reports on overloads, tables that are registered from the same differ in sites only. -/
theorem unsited_without_eq_of_recut :
    ((ofRegistry options (.ofList ds)).without .overloadAmbiguity).unsited
      = ((ofRegistry options (.ofList ds')).without .overloadAmbiguity).unsited := by
  show (ofDeclarations _ _).unsited = (ofDeclarations _ _).unsited
  rw [unsited_ofDeclarations, unsited_ofDeclarations, filter_kind_ne_overloadAmbiguity h.wellFormed,
    filter_kind_ne_overloadAmbiguity h.wellFormed', h.unsited_ruleReports_eq]
  exact congrArg (ofDeclarations · _) h.unsited_declarations_eq

/-- Where no two overloads share a site, the reports on overloads are the same, too. -/
theorem unsited_eq_of_recut (hsites : (ds.flatMap Declaration.overloadSites).Nodup)
    (hsites' : (ds'.flatMap Declaration.overloadSites).Nodup) :
    (ofRegistry options (.ofList ds)).unsited = (ofRegistry options (.ofList ds')).unsited := by
  -- the lasting reports are told by what is said, the others by what is merged
  have hreports : (ofRegistry options (.ofList ds)).diagnostics.map Diagnostic.unsited
      = (ofRegistry options (.ofList ds')).diagnostics.map Diagnostic.unsited := by
    rw [unsited_diagnostics h.wellFormed hsites, unsited_diagnostics h.wellFormed' hsites', h.keys,
      h.typeIn_eq, h.unsited_ruleReports_eq]
    simp only [h.said]
  calc (ofRegistry options (.ofList ds)).unsited
      = ofDeclarations ((ofRegistry options (.ofList ds)).declarations.map Declaration.unsited)
          ((ofRegistry options (.ofList ds)).diagnostics.map Diagnostic.unsited) :=
        unsited_ofDeclarations _ _
    _ = ofDeclarations ((ofRegistry options (.ofList ds')).declarations.map Declaration.unsited)
          ((ofRegistry options (.ofList ds')).diagnostics.map Diagnostic.unsited) := by
        rw [hreports, h.unsited_declarations_eq]
    _ = _ := (unsited_ofDeclarations _ _).symm

end

/-- Records without flaws that are cut into files in two ways make the same table but for sites.
For the reports on overloads, the files must not be so long that numbers of records come again. -/
theorem unsited_eq_of_cuts (options : Options) {fragments fragments' : List Fragment}
    (hrecords : fragments.flatMap Fragment.records = fragments'.flatMap Fragment.records)
    (hwell : ∀ record ∈ fragments.flatMap Fragment.records, record.WellFormed)
    (hfiles : (fragments.map Fragment.file).Nodup)
    (hfiles' : (fragments'.map Fragment.file).Nodup) :
    let table := ofRegistry options (fragments.foldl Registry.addFragment .empty)
    let table' := ofRegistry options (fragments'.foldl Registry.addFragment .empty)
    (table.without .overloadAmbiguity).unsited = (table'.without .overloadAmbiguity).unsited ∧
      ((∀ fragment ∈ fragments ++ fragments', fragment.records.length < 2 ^ 32) →
        table.unsited = table'.unsited) := by
  intro table table'
  -- the records alone tell what is registered; below 2³² each has a site of its own
  have hrecut := Registry.recut_of_fragments hrecords hwell
  have htable : table = ofRegistry options (.ofList (fragments.flatMap Fragment.declarations)) := by
    rw [← Registry.foldl_addFragment]
  have htable' :
      table' = ofRegistry options (.ofList (fragments'.flatMap Fragment.declarations)) := by
    rw [← Registry.foldl_addFragment]
  rw [htable, htable']
  refine ⟨unsited_without_eq_of_recut hrecut, fun hcount => ?_⟩
  refine unsited_eq_of_recut hrecut (Fragment.nodup_overloadSites_flatMap hfiles ?_)
    (Fragment.nodup_overloadSites_flatMap hfiles' ?_)
  · exact fun fragment hfragment => hcount fragment (List.mem_append_left _ hfragment)
  · exact fun fragment hfragment => hcount fragment (List.mem_append_right _ hfragment)

end Table

/-! ### A file and its parts -/

/-- A file with a module that is declared without a body, twice, and three overloads of `f`. -/
def Fragment.wholeFile : Fragment :=
  ⟨"a.d.ts", [.stub "m", .ofCall ["A"], .ofCall ["B"], .ofCall ["string", "string"], .stub "m"]⟩

/-- The same records in two files. -/
def Fragment.partFiles : List Fragment :=
  [⟨"b.d.ts", wholeFile.records.take 2⟩, ⟨"c.d.ts", wholeFile.records.drop 2⟩]

/-- An overload of the second file collapses into that of the first, as it does in the whole. -/
theorem Table.unsited_eq_wholeFile :
    let table := ofRegistry .standard ([Fragment.wholeFile].foldl Registry.addFragment .empty)
    let table' := ofRegistry .standard (Fragment.partFiles.foldl Registry.addFragment .empty)
    [Fragment.wholeFile].flatMap Fragment.records = Fragment.partFiles.flatMap Fragment.records ∧
      (∀ record ∈ [Fragment.wholeFile].flatMap Fragment.records, record.WellFormed) ∧
      ([Fragment.wholeFile].map Fragment.file).Nodup ∧
      (Fragment.partFiles.map Fragment.file).Nodup ∧
      (∀ fragment ∈ [Fragment.wholeFile] ++ Fragment.partFiles,
        fragment.records.length < 2 ^ 32) ∧
      table ≠ table' ∧ table.unsited = table'.unsited := by
  intro table table'
  have hrecords : [Fragment.wholeFile].flatMap Fragment.records
      = Fragment.partFiles.flatMap Fragment.records := rfl
  have hwell : ∀ record ∈ [Fragment.wholeFile].flatMap Fragment.records, record.WellFormed := by
    decide +kernel
  have hfile : ([Fragment.wholeFile].map Fragment.file).Nodup := by decide +kernel
  have hfiles : (Fragment.partFiles.map Fragment.file).Nodup := by decide +kernel
  have hcount : ∀ fragment ∈ [Fragment.wholeFile] ++ Fragment.partFiles,
      fragment.records.length < 2 ^ 32 := by decide +kernel
  -- only the premises are evaluated, and that the tables differ
  have hcuts := unsited_eq_of_cuts .standard hrecords hwell hfile hfiles
  exact ⟨hrecords, hwell, hfile, hfiles, hcount, by decide +kernel, hcuts.2 hcount⟩

/-! ### A file that is too long -/

namespace Fragment

/-- Behind a module that is declared without a body, further such records take up numbers only. -/
theorem groups_append_replicate_stub (file : String) {front : List Record} {name : String}
    (h : .stub name ∈ front) (n : Nat) (behind : List Record) :
    groups ⟨file, front ++ List.replicate n (.stub name) ++ behind⟩
      = (behind.zipIdx (front.length + n)).foldl (fun groups p =>
          Assoc.alter p.1.group (p.1.join ⟨file, p.2.toUInt32⟩) groups) (groups ⟨file, front⟩) := by
  have hgroup : (Record.stub name).group ∈ (groups ⟨file, front⟩).keys :=
    (mem_keys_groups _ _).mpr ⟨_, h, rfl⟩
  -- each of them finds the module declared and leaves the groups as they are
  have hrepeat : ∀ start, ((List.replicate n (Record.stub name)).zipIdx start).foldl
        (fun groups p => Assoc.alter p.1.group (p.1.join ⟨file, p.2.toUInt32⟩) groups)
        (groups ⟨file, front⟩)
      = groups ⟨file, front⟩ := by
    intro start
    induction n generalizing start with
    | zero => rfl
    | succ n ih =>
      rw [List.replicate_succ, List.zipIdx_cons, List.foldl_cons,
        Assoc.alter_eq_self hgroup fun _ => rfl]
      exact ih (start + 1)
  rw [groups_eq, List.zipIdx_append, List.zipIdx_append, List.foldl_append, List.foldl_append,
    ← groups_eq ⟨file, front⟩, hrepeat, List.length_append, List.length_replicate, Nat.zero_add]

/-- Two overloads of `f`, and a module that is declared without a body `n` times more than once. -/
def frontRecords (n : Nat) : List Record :=
  [.ofCall ["string"], .ofCall ["string", "string"], .stub "m"] ++ List.replicate n (.stub "m")

/-- Two overloads of `f` that become alike, as both of their names are unknown. -/
def backRecords : List Record :=
  [.ofCall ["A"], .ofCall ["B"]]

def paddedFile (n : Nat) : Fragment :=
  ⟨"a.d.ts", frontRecords n ++ backRecords⟩

/-- The same records in two files. -/
def paddedParts (n : Nat) : List Fragment :=
  [⟨"b.d.ts", frontRecords n⟩, ⟨"c.d.ts", backRecords⟩]

/-- What the file declares, if its last two records have these numbers. -/
def paddedDeclarations (number number' : UInt32) : List Declaration :=
  let groups := groups ⟨"a.d.ts", frontRecords 0⟩
  let groups := Groups.add groups ⟨"a.d.ts", number⟩ (.ofCall ["A"])
  Assoc.values (Groups.add groups ⟨"a.d.ts", number'⟩ (.ofCall ["B"]))

section

variable (n : Nat)

theorem records_paddedFile :
    [paddedFile n].flatMap records = (paddedParts n).flatMap records := by
  simp [paddedFile, paddedParts]

theorem wellFormed_paddedFile :
    ∀ record ∈ [paddedFile n].flatMap records, record.WellFormed := by
  -- the same records come in a file without padding
  have hshort : ∀ record ∈ frontRecords 0 ++ backRecords, record.WellFormed := by decide +kernel
  intro record hrecord
  rw [List.flatMap_singleton, paddedFile, frontRecords, List.mem_append, List.mem_append] at hrecord
  refine hshort record (List.mem_append.mpr ?_)
  obtain (hfront | hpadding) | hback := hrecord
  · exact .inl (List.mem_append_left _ hfront)
  · rw [(List.mem_replicate.mp hpadding).2]
    exact .inl (.tail _ (.tail _ (.head _)))
  · exact .inr hback

theorem groups_frontRecords (file : String) (behind : List Record) :
    groups ⟨file, frontRecords n ++ behind⟩ = (behind.zipIdx (n + 3)).foldl (fun groups p =>
      Assoc.alter p.1.group (p.1.join ⟨file, p.2.toUInt32⟩) groups)
        (groups ⟨file, frontRecords 0⟩) := by
  have hstub : Record.stub "m"
      ∈ [Record.ofCall ["string"], .ofCall ["string", "string"], .stub "m"] :=
    .tail _ (.tail _ (.head _))
  rw [frontRecords, groups_append_replicate_stub file hstub, Nat.add_comm n]
  rfl

theorem declarations_paddedFile : (paddedFile n).declarations
    = paddedDeclarations (n + 3).toUInt32 (n + 4).toUInt32 :=
  congrArg Assoc.values (groups_frontRecords n "a.d.ts" backRecords)

theorem declarations_paddedParts :
    (paddedParts n).flatMap declarations = (paddedParts 0).flatMap declarations := by
  have hfront := groups_frontRecords n "b.d.ts" []
  rw [List.append_nil] at hfront
  rw [paddedParts, paddedParts, List.flatMap_cons, List.flatMap_cons]
  exact congrArg (fun groups => Assoc.values groups ++ _) hfront

end

end Fragment

open Fragment in
/-- With 2³² records in front, the last two have the numbers of the first two.  The last one
collapses, and the report on an overload that stays is withdrawn with its own, as both are at one
site.  In two files they are at two sites, and that report is kept. -/
theorem Table.unsited_ne_paddedFile :
    let file := paddedFile (2 ^ 32 - 3)
    let parts := paddedParts (2 ^ 32 - 3)
    let table := ofRegistry .standard ([file].foldl Registry.addFragment .empty)
    let table' := ofRegistry .standard (parts.foldl Registry.addFragment .empty)
    [file].flatMap records = parts.flatMap records ∧
      (∀ record ∈ [file].flatMap records, record.WellFormed) ∧
      ([file].map Fragment.file).Nodup ∧ (parts.map Fragment.file).Nodup ∧
      (Diagnostic.withKind .overloadAmbiguity table.diagnostics).length = 1 ∧
      (Diagnostic.withKind .overloadAmbiguity table'.diagnostics).length = 2 ∧
      table.unsited ≠ table'.unsited := by
  intro file parts table table'
  -- the file is too long to be evaluated: its declarations are given by `declarations_paddedFile`,
  -- where 2³² and 2³² + 1 become 0 and 1
  have htable : table = ofRegistry .standard (.ofList (paddedDeclarations 0 1)) := by
    show ofRegistry .standard ([file].foldl Registry.addFragment .empty) = _
    rw [Registry.foldl_addFragment, List.flatMap_singleton, declarations_paddedFile]
    rfl
  have htable' : table' = ofRegistry .standard
      (.ofList ((paddedParts 0).flatMap Fragment.declarations)) := by
    show ofRegistry .standard (parts.foldl Registry.addFragment .empty) = _
    rw [Registry.foldl_addFragment, declarations_paddedParts]
  rw [htable, htable']
  exact ⟨records_paddedFile _, wellFormed_paddedFile _, List.nodup_singleton _, by decide +kernel,
    by decide +kernel, by decide +kernel, by decide +kernel⟩

end Overlay
