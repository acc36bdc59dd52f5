/-
Reports on overloads, member by member.

Merging goes through all overloads of a key and reports a further one when it comes.  What it has
reported in the end can be read off the merged declarations: of each member, every overload behind
the first has one report, and nothing else has any.

* `Merge.reportsOn_eq` — what was reported on a name, and the overloads that are left of the name;
* `Merge.perm_furtherReports` — the reports on a key are, up to order, those on its members;
* `Merged.perm_ambiguities` — so are those of a whole merge;
* `Member.map_ambiguities` — the sites that the reports on a member show.
-/
import Overlay.Proofs.Calls
import Overlay.Proofs.Order

namespace Overlay

/-! ### Reports of a kind -/

namespace Diagnostic

/-- The reports of a kind. -/
def withKind (kind : Kind) (reports : List Diagnostic) : List Diagnostic :=
  reports.filter fun report => report.kind = kind

theorem withKind_append (kind : Kind) (reports reports' : List Diagnostic) :
    withKind kind (reports ++ reports') = withKind kind reports ++ withKind kind reports' :=
  List.filter_append ..

theorem withKind_eq_self {kind : Kind} {reports : List Diagnostic}
    (h : ∀ report ∈ reports, report.kind = kind) : withKind kind reports = reports :=
  List.filter_eq_self.mpr fun report hreport => decide_eq_true (h report hreport)

theorem withKind_eq_nil {kind kind' : Kind} {reports : List Diagnostic}
    (h : ∀ report ∈ reports, report.kind = kind') (hne : kind' ≠ kind) :
    withKind kind reports = [] := by
  refine List.filter_eq_nil_iff.mpr fun report hreport => ?_
  rw [h report hreport, decide_eq_true_iff]
  exact hne

theorem filter_kind_ne_eq_self {kind kind' : Kind} {reports : List Diagnostic}
    (h : ∀ report ∈ reports, report.kind = kind') (hne : kind' ≠ kind) :
    (reports.filter fun report => report.kind ≠ kind) = reports := by
  refine List.filter_eq_self.mpr fun report hreport => ?_
  rw [h report hreport, decide_eq_true_iff]
  exact hne

theorem filter_kind_ne_eq_nil {kind : Kind} {reports : List Diagnostic}
    (h : ∀ report ∈ reports, report.kind = kind) :
    (reports.filter fun report => report.kind ≠ kind) = [] :=
  List.filter_eq_nil_iff.mpr fun report hreport => by simp [h report hreport]

end Diagnostic

theorem Merge.kind_of_mem_malformedReports {key : Key} {ds : List Declaration}
    {report : Diagnostic} (h : report ∈ malformedReports key ds) :
    report.kind = .malformedSignature := by
  simp only [malformedReports, List.mem_flatMap, List.mem_filterMap, Option.map_eq_some_iff] at h
  obtain ⟨_, _, _, _, _, _, _, _, rfl⟩ := h
  rfl

theorem Merge.kind_of_furtherReport? {key : Key} {name : String} {o : Overload}
    {earlier : List Overload} {report : Diagnostic}
    (h : furtherReport? key name o earlier = some report) : report.kind = .overloadAmbiguity := by
  cases earlier with
  | nil => simp [furtherReport?] at h
  | cons leading rest =>
    rw [furtherReport?] at h
    split at h
    · exact absurd h (by simp)
    · rw [← Option.some.inj h]
      rfl

theorem Merge.kind_of_mem_furtherReports {key : Key} {ps : List (String × Overload)}
    {report : Diagnostic} (h : report ∈ furtherReports key ps) :
    report.kind = .overloadAmbiguity := by
  obtain ⟨_, _, h⟩ := List.mem_filterMap.mp h
  exact kind_of_furtherReport? h

/-! ### Reports on a member -/

/-- The reports on the overloads of a member behind the first one, each of which counts those in
front of it. -/
def Member.ambiguities (key : Key) (m : Member) : List Diagnostic :=
  match m.overloads with
  | [] => []
  | leading :: rest =>
    rest.zipIdx.map fun (o, i) => o.ambiguity key m.name leading (leading :: rest.take i)

/-- The reports on the members of a declaration. -/
def Declaration.ambiguities (d : Declaration) : List Diagnostic :=
  d.members.flatMap (Member.ambiguities d.key)

/-- The site of a report and those beside it. -/
def Diagnostic.sites (report : Diagnostic) : Site × List Site :=
  (report.site, report.related.map Related.site)

/-- The sites of the overloads of a member behind the first one, each with the site of the first. -/
def Member.furtherSites (m : Member) : List (Site × Site) :=
  match m.overloads with
  | [] => []
  | leading :: rest => rest.map fun o => (o.site, leading.site)

def Declaration.furtherSites (d : Declaration) : List (Site × Site) :=
  d.members.flatMap Member.furtherSites

/-- The reports on a member show the site of an overload, and beside it that of the first one. -/
theorem Member.map_ambiguities (key : Key) (m : Member) :
    (m.ambiguities key).map Diagnostic.sites
      = m.furtherSites.map fun (site, leading) => (site, [leading]) := by
  obtain ⟨name, overloads⟩ := m
  cases overloads with
  | nil => rfl
  | cons leading rest =>
    rw [ambiguities, furtherSites, List.map_map, List.map_map]
    calc _ = (rest.zipIdx.map Prod.fst).map fun o => (o.site, [leading.site]) := by
          rw [List.map_map]
          rfl
      _ = _ := by
          rw [List.zipIdx_map_fst]
          rfl

theorem Declaration.map_ambiguities (d : Declaration) :
    d.ambiguities.map Diagnostic.sites
      = d.furtherSites.map fun (site, leading) => (site, [leading]) := by
  rw [ambiguities, furtherSites, List.map_flatMap, List.map_flatMap]
  exact List.flatMap_congr fun m _ => m.map_ambiguities d.key

theorem Member.length_ambiguities (key : Key) (m : Member) :
    (m.ambiguities key).length = m.overloads.length - 1 := by
  obtain ⟨name, overloads⟩ := m
  cases overloads with
  | nil => rfl
  | cons leading rest => rw [ambiguities, List.length_map, List.length_zipIdx]; rfl

/-- With a new overload at the end there is one report more, unless it is the only overload. -/
theorem Member.ambiguities_concat (key : Key) (name : String) (os : List Overload) (o : Overload) :
    Member.ambiguities key ⟨name, os ++ [o]⟩ = Member.ambiguities key ⟨name, os⟩ ++
      (os.head?.map fun leading => o.ambiguity key name leading os).toList := by
  cases os with
  | nil => rfl
  | cons leading rest =>
    -- no report of before looks as far as the new overload
    have hrest : rest.zipIdx.map (fun (o', i) =>
          o'.ambiguity key name leading (leading :: (rest ++ [o]).take i))
        = Member.ambiguities key ⟨name, leading :: rest⟩ := by
      refine List.map_congr_left fun ⟨o', i⟩ h => ?_
      show o'.ambiguity key name leading (leading :: (rest ++ [o]).take i) = _
      rw [take_append_of_mem_zipIdx h]
    show (rest ++ [o]).zipIdx.map (fun (o', i) =>
      o'.ambiguity key name leading (leading :: (rest ++ [o]).take i)) = _
    rw [List.zipIdx_append, List.map_append, hrest]
    simp

namespace Merge

/-- The reports on further overloads of a name, in the order of the overloads. -/
def reportsOn (key : Key) (name : String) (ps : List (String × Overload)) : List Diagnostic :=
  (ps.zipIdx.filter fun p => p.1.1 = name).filterMap fun ((name, o), i) =>
    furtherReport? key name o (named name (ps.take i))

theorem reportsOn_concat (key : Key) (name : String) (ps : List (String × Overload))
    (p : String × Overload) : reportsOn key name (ps ++ [p]) = reportsOn key name ps ++
      if p.1 = name then (furtherReport? key name p.2 (named name ps)).toList else [] := by
  have hearlier : (ps.zipIdx.filter fun p => p.1.1 = name).filterMap (fun ((name, o), i) =>
        furtherReport? key name o (named name ((ps ++ [p]).take i))) = reportsOn key name ps := by
    refine List.filterMap_congr fun ⟨⟨name, o⟩, i⟩ h => ?_
    show furtherReport? key name o (named name ((ps ++ [p]).take i)) = _
    rw [take_append_of_mem_zipIdx (List.mem_filter.mp h).1]
  rw [reportsOn, List.zipIdx_append, List.filter_append, List.filterMap_append, hearlier]
  congr 1
  obtain ⟨name', o⟩ := p
  by_cases h : name' = name
  · subst h
    cases hreport : furtherReport? key name' o (named name' ps) <;> simp [hreport]
  · simp [h]

/-- What is reported on a name are the reports on the overloads that are kept of the name. -/
theorem reportsOn_eq (key : Key) (name : String) (ps : List (String × Overload)) :
    reportsOn key name ps = Member.ambiguities key ⟨name, Overload.firsts (named name ps)⟩ := by
  induction ps using List.reverseRecOn with
  | nil => rfl
  | append_singleton ps p ih =>
    obtain ⟨name', o⟩ := p
    rw [reportsOn_concat, ih]
    by_cases hname : name' = name
    · subst hname
      have hnamed : named name' (ps ++ [(name', o)]) = named name' ps ++ [o] := by simp [named]
      rw [if_pos rfl, hnamed, Overload.firsts_concat, furtherReport?_eq]
      by_cases hin : o.isIn (named name' ps)
      · -- what is alike an earlier overload is neither kept nor reported
        have hnone : o.ambiguity? key name' (Overload.firsts (named name' ps)) = none := by
          have hout : o.isIn (Overload.firsts (named name' ps)) := by rwa [Overload.isIn_firsts]
          cases hfirsts : Overload.firsts (named name' ps) with
          | nil => rfl
          | cons leading rest =>
            rw [hfirsts] at hout
            rw [Overload.ambiguity?, if_pos hout]
        rw [if_pos hin, hnone]
        exact List.append_nil _
      · -- any other overload is kept, and reported unless it leads
        have hsome : o.ambiguity? key name' (Overload.firsts (named name' ps))
            = (Overload.firsts (named name' ps)).head?.map fun leading =>
                o.ambiguity key name' leading (Overload.firsts (named name' ps)) := by
          have hkept : ¬ o.isIn (Overload.firsts (named name' ps)) := by
            rwa [Overload.isIn_firsts]
          cases hfirsts : Overload.firsts (named name' ps) with
          | nil => rfl
          | cons leading rest =>
            rw [hfirsts] at hkept
            rw [Overload.ambiguity?, if_neg hkept]
            rfl
        rw [if_neg hin, Member.ambiguities_concat, hsome]
    · -- an overload of another name changes neither side
      have hnamed : named name (ps ++ [(name', o)]) = named name ps := by simp [named, hname]
      rw [if_neg hname, hnamed, List.append_nil]

/-- The reports on overloads are, up to order, those on each name. -/
theorem perm_furtherReports (key : Key) (ps : List (String × Overload)) :
    ((ps.map Prod.fst).eraseDups.flatMap fun name => reportsOn key name ps).Perm
      (furtherReports key ps) := by
  have hgroups := perm_flatMap_filter (fun p : (String × Overload) × Nat => p.1.1)
    (nodup_eraseDups (ps.map Prod.fst)) ps.zipIdx fun ⟨p, i⟩ h =>
      List.mem_eraseDups.mpr (List.mem_map_of_mem (List.fst_mem_of_mem_zipIdx h))
  have hreports := hgroups.filterMap fun ((name, o), i) =>
    furtherReport? key name o (named name (ps.take i))
  rwa [List.filterMap_flatMap] at hreports

/-- The reports on the overloads of declarations are those on the members of what they say
together. -/
theorem perm_ambiguities_union (key : Key) (ds : List Declaration) :
    (union key ds).ambiguities.Perm (furtherReports key (ds.flatMap Declaration.overloads)) := by
  have hmembers : (union key ds).ambiguities = (memberNames ds).flatMap fun name =>
      reportsOn key name (ds.flatMap Declaration.overloads) := by
    rw [Declaration.ambiguities, members_union, List.flatMap_map]
    refine List.flatMap_congr fun name _ => ?_
    rw [reportsOn_eq, named_flatMap_overloads]
    rfl
  rw [hmembers, ← eraseDups_map_fst_overloads]
  exact perm_furtherReports key _

end Merge

/-! ### Reports of a merge -/

namespace Merged

variable (options : Options) (ds : List Declaration)

theorem withKind_malformedSignature :
    Diagnostic.withKind .malformedSignature (ofRegistry options (.ofList ds)).diagnostics
      = (Registry.ofList ds).keys.flatMap fun key =>
          Merge.malformedReports key ((Registry.ofList ds).sites key) := by
  rw [diagnostics_ofRegistry, reference, Diagnostic.withKind, List.filter_flatMap]
  refine List.flatMap_congr fun key _ => ?_
  show Diagnostic.withKind _ (_ ++ _) = _
  rw [Diagnostic.withKind_append,
    Diagnostic.withKind_eq_self fun _ => Merge.kind_of_mem_malformedReports]
  split
  · rw [Diagnostic.withKind_eq_nil (fun _ => Merge.kind_of_mem_furtherReports) (by decide),
      List.append_nil]
  · exact List.append_nil _

theorem withKind_overloadAmbiguity :
    Diagnostic.withKind .overloadAmbiguity (ofRegistry options (.ofList ds)).diagnostics
      = if options.reportOverloads then
          (Registry.ofList ds).keys.flatMap fun key =>
            Merge.furtherReports key
              (((Registry.ofList ds).wellFormed key).flatMap Declaration.overloads)
        else [] := by
  rw [diagnostics_ofRegistry, reference, Diagnostic.withKind, List.filter_flatMap]
  -- none of the reports on malformed signatures is of this kind
  have hmalformed : ∀ key, Diagnostic.withKind .overloadAmbiguity
      (Merge.malformedReports key ((Registry.ofList ds).sites key)) = [] := fun key =>
    Diagnostic.withKind_eq_nil (fun _ => Merge.kind_of_mem_malformedReports) (by decide)
  by_cases h : options.reportOverloads
  · rw [if_pos h]
    refine List.flatMap_congr fun key _ => ?_
    show Diagnostic.withKind _ (_ ++ _) = _
    rw [Diagnostic.withKind_append, hmalformed, List.nil_append, if_pos h,
      Diagnostic.withKind_eq_self fun _ => Merge.kind_of_mem_furtherReports]
  · rw [if_neg h]
    refine List.flatMap_eq_nil_iff.mpr fun key _ => ?_
    show Diagnostic.withKind _ (_ ++ _) = _
    rw [if_neg h, List.append_nil, hmalformed]

/-- The reports on overloads are, up to order, those on the members of the merged declarations. -/
theorem perm_ambiguities :
    (if options.reportOverloads then
      (ofRegistry options (.ofList ds)).declarations.flatMap Declaration.ambiguities
    else []).Perm
      (Diagnostic.withKind .overloadAmbiguity (ofRegistry options (.ofList ds)).diagnostics) := by
  rw [withKind_overloadAmbiguity]
  split
  · rw [declarations_ofRegistry, reference, List.flatMap_map]
    -- where nothing is well formed, nothing is merged and nothing is reported
    have hkeys : ∀ key ∈ (Registry.ofList ds).keys,
        decide ((Registry.ofList ds).wellFormed key ≠ []) = false →
        (Merge.union key ((Registry.ofList ds).wellFormed key)).ambiguities = [] := by
      intro key _ hnone
      rw [of_not_not (of_decide_eq_false hnone)]
      rfl
    rw [flatMap_filter_of_eq_nil hkeys]
    exact .flatMap_left _ fun key _ => Merge.perm_ambiguities_union key _
  · exact .refl _

/-- A merge reports malformed signatures and overloads. -/
theorem kind_of_mem_diagnostics {report : Diagnostic}
    (h : report ∈ (ofRegistry options (.ofList ds)).diagnostics) :
    report.kind = .malformedSignature ∨ report.kind = .overloadAmbiguity := by
  rw [diagnostics_ofRegistry, reference, List.mem_flatMap] at h
  obtain ⟨key, -, h⟩ := h
  rcases List.mem_append.mp h with h | h
  · exact .inl (Merge.kind_of_mem_malformedReports h)
  · split at h
    · exact .inr (Merge.kind_of_mem_furtherReports h)
    · exact absurd h List.not_mem_nil

end Merged

/-! ### Reports of a table -/

namespace Table

variable (options : Options) (ds : List Declaration)

theorem diagnostics_ofRegistry : (ofRegistry options (.ofList ds)).diagnostics
    = (Merged.ofRegistry options (.ofList ds)).diagnostics.filter
        (Diagnostic.stands ((Merged.ofRegistry options (.ofList ds)).collapsedSites options))
      ++ Lookup.ruleReports (Merged.ofRegistry options (.ofList ds)).keys options.acrossModules
          (Merged.ofRegistry options (.ofList ds)).declarations :=
  Merged.diagnostics_resolve_eq _ options

/-- Of the reports on overloads, a table has those that are not at the site of a collapsed one. -/
theorem withKind_overloadAmbiguity :
    Diagnostic.withKind .overloadAmbiguity (ofRegistry options (.ofList ds)).diagnostics
      = (Diagnostic.withKind .overloadAmbiguity
          (Merged.ofRegistry options (.ofList ds)).diagnostics).filter fun report =>
            report.site ∉ (Merged.ofRegistry options (.ofList ds)).collapsedSites options := by
  rw [diagnostics_ofRegistry, Diagnostic.withKind_append,
    Diagnostic.withKind_eq_nil (fun _ => Lookup.kind_of_mem_ruleReports) (by decide),
    List.append_nil, Diagnostic.withKind, Diagnostic.withKind, List.filter_filter,
    List.filter_filter]
  refine List.filter_congr fun report _ => ?_
  by_cases hkind : report.kind = .overloadAmbiguity
  · simp [Diagnostic.stands, hkind]
  · simp [hkind]

theorem withKind_unknownType :
    Diagnostic.withKind .unknownType (ofRegistry options (.ofList ds)).diagnostics
      = Lookup.ruleReports (Merged.ofRegistry options (.ofList ds)).keys options.acrossModules
          (Merged.ofRegistry options (.ofList ds)).declarations := by
  have hmerged : Diagnostic.withKind .unknownType
      ((Merged.ofRegistry options (.ofList ds)).diagnostics.filter (Diagnostic.stands
        ((Merged.ofRegistry options (.ofList ds)).collapsedSites options))) = [] := by
    refine List.filter_eq_nil_iff.mpr fun report hreport => ?_
    rcases Merged.kind_of_mem_diagnostics options ds (List.mem_of_mem_filter hreport) with h | h
    · simp [h]
    · simp [h]
  rw [diagnostics_ofRegistry, Diagnostic.withKind_append, hmerged, List.nil_append,
    Diagnostic.withKind_eq_self fun _ => Lookup.kind_of_mem_ruleReports]

/-- Beside malformed signatures a table reports overloads, and then names. -/
theorem filter_kind_ne_malformedSignature :
    ((ofRegistry options (.ofList ds)).diagnostics.filter fun r => r.kind ≠ .malformedSignature)
      = Diagnostic.withKind .overloadAmbiguity (ofRegistry options (.ofList ds)).diagnostics
        ++ Diagnostic.withKind .unknownType (ofRegistry options (.ofList ds)).diagnostics := by
  rw [withKind_unknownType, diagnostics_ofRegistry, Diagnostic.withKind_append,
    Diagnostic.withKind_eq_nil (fun _ => Lookup.kind_of_mem_ruleReports) (by decide),
    List.append_nil, List.filter_append]
  congr 1
  · refine List.filter_congr fun report hreport => ?_
    rcases Merged.kind_of_mem_diagnostics options ds (List.mem_of_mem_filter hreport) with h | h
    · simp [h]
    · simp [h]
  · exact Diagnostic.filter_kind_ne_eq_self (fun _ => Lookup.kind_of_mem_ruleReports) (by decide)

end Table

end Overlay
