/-
Registering again.

Declarations that are registered once more say nothing new.  Their overloads are alike earlier ones,
so that nothing is merged from them but their sites, and no name is looked up in another way.  What
they leave behind are sites of declarations, and one more report on each malformed signature:

* `append_eq_self_of_concat` — what ignores a repeated element ignores any number of them;
* `Merge.union_append_of_subset` — what declarations say together, some of them once more;
* `Merged.collapsedSites_append_of_subset` — the same overloads collapse;
* `Table.repeats_ofDeclarations` — added sites of declarations leave the rest of a table alone;
* `Table.repeats_extend` — all that registering again can leave in a table.
-/
import Overlay.Proofs.Growth
import Overlay.Proofs.Withdrawal

open scoped List

namespace Overlay

/-! ### What may differ -/

/-- The declaration with the sites that are added for its key behind its own. -/
def Declaration.addSites (added : Key → List Site) (d : Declaration) : Declaration :=
  { d with sites := d.sites ++ added d.key }

/-- The sites at which declarations are well formed, by their keys. -/
def Registry.wellFormedSites (registry : Registry) (key : Key) : List Site :=
  (registry.wellFormed key).filterMap Declaration.site?

/-- The second table is the first one with sites added to its declarations, and with reports on
malformed signatures made again. -/
structure Table.Repeats (added : Key → List Site) (table table' : Table) : Prop where
  declarations : table'.declarations = table.declarations.map (Declaration.addSites added)
  modules : table'.modules = table.modules.map (ModuleView.map (Declaration.addSites added))
  declarationIndex : table'.declarationIndex = table.declarationIndex
  moduleIndex : table'.moduleIndex = table.moduleIndex
  otherReports : (table'.diagnostics.filter fun r => r.kind ≠ .malformedSignature)
    = table.diagnostics.filter fun r => r.kind ≠ .malformedSignature
  kept : table.diagnostics <+ table'.diagnostics
  repeated : table'.diagnostics ⊆ table.diagnostics

/-! ### Step by step -/

/-- What ignores a repeated element ignores any number of them. -/
theorem append_eq_self_of_concat {α β : Type} {f : List α → β}
    (h : ∀ as, ∀ a ∈ as, f (as ++ [a]) = f as) {as bs : List α} (hbs : bs ⊆ as) :
    f (as ++ bs) = f as := by
  induction bs using List.reverseRecOn with
  | nil => rw [List.append_nil]
  | append_singleton bs b ih =>
    obtain ⟨hbs, hb⟩ := List.append_subset.mp hbs
    have hmem : b ∈ as ++ bs := List.mem_append_left bs (hb (List.mem_singleton_self b))
    rw [← List.append_assoc, h _ b hmem, ih hbs]

theorem eraseDups_append_of_subset {α : Type} [DecidableEq α] {as bs : List α} (h : bs ⊆ as) :
    (as ++ bs).eraseDups = as.eraseDups := by
  refine append_eq_self_of_concat (fun as a ha => ?_) h
  rw [eraseDups_concat, if_pos ha]

theorem flatMap_subset {α β : Type} (f : α → List β) {as bs : List α} (h : bs ⊆ as) :
    bs.flatMap f ⊆ as.flatMap f := by
  intro b hb
  obtain ⟨a, ha, hb⟩ := List.mem_flatMap.mp hb
  exact List.mem_flatMap.mpr ⟨a, h ha, hb⟩

namespace Overload

theorem firsts_append_of_subset {os os' : List Overload} (h : os' ⊆ os) :
    firsts (os ++ os') = firsts os := by
  refine append_eq_self_of_concat (fun os o ho => ?_) h
  rw [firsts_concat, if_pos (isIn_of_mem ho)]

end Overload

namespace Merge

/-- Nothing is reported on an overload that came before. -/
theorem furtherReport?_of_mem {key : Key} {name : String} {o : Overload} {earlier : List Overload}
    (h : o ∈ earlier) : furtherReport? key name o earlier = none := by
  cases earlier with
  | nil => rfl
  | cons leading rest => exact if_pos ⟨o, h, Signature.alike_refl o.signature⟩

theorem furtherReports_append_of_subset {key : Key} {ps qs : List (String × Overload)}
    (h : qs ⊆ ps) : furtherReports key (ps ++ qs) = furtherReports key ps := by
  refine append_eq_self_of_concat (fun ps p hp => ?_) h
  have hearlier : p.2 ∈ named p.1 ps :=
    List.mem_map_of_mem (List.mem_filter.mpr ⟨hp, decide_eq_true rfl⟩)
  rw [furtherReports_concat, furtherReport?_of_mem hearlier]
  exact List.append_nil _

/-! ### Declarations -/

theorem memberNames_append_of_subset {ds es : List Declaration} (h : es ⊆ ds) :
    memberNames (ds ++ es) = memberNames ds := by
  rw [memberNames, List.flatMap_append, List.filter_append, List.map_append]
  exact eraseDups_append_of_subset
    (List.map_subset _ (List.filter_subset _ (flatMap_subset Declaration.members h)))

theorem firsts_overloadsNamed_append_of_subset {ds es : List Declaration} (h : es ⊆ ds)
    (name : String) : Overload.firsts (overloadsNamed name (ds ++ es))
      = Overload.firsts (overloadsNamed name ds) := by
  rw [overloadsNamed_append]
  exact Overload.firsts_append_of_subset
    (flatMap_subset _ (List.filter_subset _ (flatMap_subset Declaration.members h)))

/-- Some of the declarations once more add their sites to what is said together. -/
theorem union_append_of_subset (key : Key) {ds es : List Declaration} (h : es ⊆ ds) :
    union key (ds ++ es) = (union key ds).addSites fun _ => es.filterMap Declaration.site? := by
  have hstub : (∀ d ∈ ds ++ es, d.body = .stub) ↔ ∀ d ∈ ds, d.body = .stub := by
    constructor
    · exact fun hstub d hd => hstub d (List.mem_append_left es hd)
    · exact fun hstub d hd => hstub d ((List.mem_append.mp hd).elim id fun hd => h hd)
  rw [union, union, Declaration.addSites, memberNames_append_of_subset h, List.filterMap_append]
  simp only [hstub, firsts_overloadsNamed_append_of_subset h]

end Merge

/-! ### Registries -/

namespace Registry

variable {ds es : List Declaration} (h : es ⊆ ds)

include h

theorem keys_append_of_subset : (ofList (ds ++ es)).keys = (ofList ds).keys := by
  rw [keys_ofList, keys_ofList, List.map_append]
  exact eraseDups_append_of_subset (List.map_subset _ h)

theorem sites_subset (key : Key) : (ofList es).sites key ⊆ (ofList ds).sites key := by
  rw [sites_ofList, sites_ofList]
  exact List.filter_subset _ h

theorem wellFormed_subset (key : Key) : (ofList es).wellFormed key ⊆ (ofList ds).wellFormed key :=
  List.filter_subset _ (sites_subset h key)

end Registry

/-! ### Merges -/

namespace Merged

variable (options : Options) {ds es : List Declaration} (h : es ⊆ ds)

include h

theorem keys_append_of_subset : (ofRegistry options (.ofList (ds ++ es))).keys
    = (ofRegistry options (.ofList ds)).keys := by
  rw [keys_ofRegistry, keys_ofRegistry, Registry.keys_append_of_subset h]
  refine List.filter_congr fun key _ => ?_
  -- a key without a well-formed declaration gets none
  have hnone (hnil : (Registry.ofList ds).wellFormed key = []) :
      (Registry.ofList es).wellFormed key = [] :=
    List.eq_nil_of_subset_nil (hnil ▸ Registry.wellFormed_subset h key)
  rw [Registry.wellFormed_append, decide_eq_decide, Ne, Ne, List.append_eq_nil_iff]
  exact not_congr ⟨And.left, fun hnil => ⟨hnil, hnone hnil⟩⟩

theorem declarations_append_of_subset : (ofRegistry options (.ofList (ds ++ es))).declarations
    = (ofRegistry options (.ofList ds)).declarations.map
        (Declaration.addSites (Registry.ofList es).wellFormedSites) := by
  rw [declarations_eq_map_keys, declarations_eq_map_keys, keys_append_of_subset options h,
    List.map_map]
  refine List.map_congr_left fun key _ => ?_
  rw [Registry.wellFormed_append,
    Merge.union_append_of_subset key (Registry.wellFormed_subset h key)]
  rfl

/-- The same overloads collapse. -/
theorem collapsedSites_append_of_subset :
    (ofRegistry options (.ofList (ds ++ es))).collapsedSites options
      = (ofRegistry options (.ofList ds)).collapsedSites options := by
  rw [collapsedSites, collapsedSites, lookup, lookup, keys_append_of_subset options h,
    declarations_append_of_subset options h, List.flatMap_map]
  rfl

theorem withKind_overloadAmbiguity_append_of_subset :
    Diagnostic.withKind .overloadAmbiguity (ofRegistry options (.ofList (ds ++ es))).diagnostics
      = Diagnostic.withKind .overloadAmbiguity
          (ofRegistry options (.ofList ds)).diagnostics := by
  rw [withKind_overloadAmbiguity, withKind_overloadAmbiguity, Registry.keys_append_of_subset h]
  split
  · refine List.flatMap_congr fun key _ => ?_
    rw [Registry.wellFormed_append, List.flatMap_append]
    exact Merge.furtherReports_append_of_subset
      (flatMap_subset _ (Registry.wellFormed_subset h key))
  · rfl

/-- Each report was made before. -/
theorem diagnostics_append_subset : (ofRegistry options (.ofList (ds ++ es))).diagnostics
    ⊆ (ofRegistry options (.ofList ds)).diagnostics := by
  rw [diagnostics_ofRegistry, diagnostics_ofRegistry, reference, reference,
    Registry.keys_append_of_subset h]
  intro report hreport
  obtain ⟨key, hkey, hreport⟩ := List.mem_flatMap.mp hreport
  refine List.mem_flatMap.mpr ⟨key, hkey, ?_⟩
  rw [Registry.sites_append, Registry.wellFormed_append, Merge.malformedReports_append,
    List.flatMap_append, Merge.furtherReports_append_of_subset
      (flatMap_subset _ (Registry.wellFormed_subset h key))] at hreport
  rcases List.mem_append.mp hreport with hmalformed | hfurther
  · refine List.mem_append_left _ ((List.mem_append.mp hmalformed).elim id fun hmalformed => ?_)
    exact flatMap_subset _ (Registry.sites_subset h key) hmalformed
  · exact List.mem_append_right _ hfurther

end Merged

/-! ### Tables -/

namespace Table

/-- The views of modules show the added sites, too, and the indexes are the same. -/
theorem repeats_ofDeclarations (added : Key → List Site) (declarations : List Declaration)
    {reports reports' : List Diagnostic}
    (hother : (reports'.filter fun r => r.kind ≠ .malformedSignature)
      = reports.filter fun r => r.kind ≠ .malformedSignature)
    (hkept : reports <+ reports') (hrepeated : reports' ⊆ reports) :
    Repeats added (ofDeclarations declarations reports)
      (ofDeclarations (declarations.map (Declaration.addSites added)) reports') := by
  rw [ofDeclarations_map (Declaration.addSites added) (fun _ => rfl) fun _ => rfl]
  exact ⟨rfl, rfl, rfl, rfl, hother, hkept, hrepeated⟩

variable (options : Options) {ds es : List Declaration} (h : es ⊆ ds)

include h

theorem declarations_append_of_subset : (ofRegistry options (.ofList (ds ++ es))).declarations
    = (ofRegistry options (.ofList ds)).declarations.map
        (Declaration.addSites (Registry.ofList es).wellFormedSites) := by
  rw [declarations_eq_map_resolve, declarations_eq_map_resolve, Merged.lookup, Merged.lookup,
    Merged.keys_append_of_subset options h, Merged.declarations_append_of_subset options h,
    List.map_map, List.map_map]
  rfl

theorem unknownTypes_append_of_subset :
    Diagnostic.withKind .unknownType (ofRegistry options (.ofList (ds ++ es))).diagnostics
      = Diagnostic.withKind .unknownType (ofRegistry options (.ofList ds)).diagnostics := by
  rw [withKind_unknownType, withKind_unknownType, Merged.keys_append_of_subset options h,
    Merged.declarations_append_of_subset options h, Lookup.ruleReports, List.flatMap_map]
  rfl

theorem otherReports_append_of_subset :
    ((ofRegistry options (.ofList (ds ++ es))).diagnostics.filter fun r =>
        r.kind ≠ .malformedSignature)
      = (ofRegistry options (.ofList ds)).diagnostics.filter fun r =>
          r.kind ≠ .malformedSignature := by
  rw [filter_kind_ne_malformedSignature, filter_kind_ne_malformedSignature,
    unknownTypes_append_of_subset options h, withKind_overloadAmbiguity, withKind_overloadAmbiguity,
    Merged.collapsedSites_append_of_subset options h,
    Merged.withKind_overloadAmbiguity_append_of_subset options h]

/-- The same reports are withdrawn from what a merge has reported, and the same come behind it. -/
theorem diagnostics_append_of_subset : ∃ (stands : Diagnostic → Bool) (behind : List Diagnostic),
    (ofRegistry options (.ofList ds)).diagnostics
        = (Merged.ofRegistry options (.ofList ds)).diagnostics.filter stands ++ behind ∧
      (ofRegistry options (.ofList (ds ++ es))).diagnostics
        = (Merged.ofRegistry options (.ofList (ds ++ es))).diagnostics.filter stands ++ behind := by
  have hnames := unknownTypes_append_of_subset options h
  rw [withKind_unknownType, withKind_unknownType] at hnames
  refine ⟨_, _, diagnostics_ofRegistry options ds, ?_⟩
  rw [diagnostics_ofRegistry, Merged.collapsedSites_append_of_subset options h, hnames]

theorem repeats_append : Repeats (Registry.ofList es).wellFormedSites
    (ofRegistry options (.ofList ds)) (ofRegistry options (.ofList (ds ++ es))) := by
  obtain ⟨stands, behind, hbefore, hafter⟩ := diagnostics_append_of_subset options h
  have hkept : (ofRegistry options (.ofList ds)).diagnostics
      <+ (ofRegistry options (.ofList (ds ++ es))).diagnostics := by
    rw [hbefore, hafter]
    exact ((Merged.diagnostics_sublist options ds es).filter stands).append_right behind
  have hrepeated : (ofRegistry options (.ofList (ds ++ es))).diagnostics
      ⊆ (ofRegistry options (.ofList ds)).diagnostics := by
    rw [hbefore, hafter]
    refine List.append_subset.mpr ⟨List.subset_append_of_subset_left behind ?_,
      List.subset_append_right _ behind⟩
    exact List.filter_subset stands (Merged.diagnostics_append_subset options h)
  have htable := repeats_ofDeclarations (Registry.ofList es).wellFormedSites
    (ofRegistry options (.ofList ds)).declarations (otherReports_append_of_subset options h) hkept
    hrepeated
  rwa [← declarations_append_of_subset options h] at htable

end Table

/-- Registering again what is registered already leaves nothing in a table but added sites of its
declarations and further reports on malformed signatures. -/
theorem Table.repeats_extend (options : Options) {ds es : List Declaration} (h : es ⊆ ds) :
    Repeats (Registry.ofList es).wellFormedSites (ofRegistry options (.ofList ds))
      (ofRegistry options ((Registry.ofList ds).extend es)) := by
  rw [Registry.extend_ofList]
  exact repeats_append options h

/-- A module without a body, an interface in it with two overloads, one of which names a type that
nobody declares, and a malformed global. -/
def Declaration.oneFile : List Declaration :=
  let site (ordinal : UInt32) : Site := ⟨"index.d.ts", ordinal⟩
  [.stub "files" (site 0),
    .interface ⟨.ambient "files", "Reader"⟩ (site 1)
      [.single "read" ⟨[.required "path" .string], .any⟩ (site 1),
        .single "read" ⟨[.required "path" .string, .required "as" (.unresolved "Format")], .any⟩
          (site 2)],
    .interface (.ofGlobal "Store") (site 3)
      [.single "get" ⟨[⟨"key", .string, true, false⟩, .required "as" .string], .any⟩ (site 3)]]

/-- All of it is registered again, in another order: the malformed signature is reported once
more. -/
theorem Table.repeats_oneFile :
    let ds := Declaration.oneFile
    let table := ofRegistry .standard (.ofList ds)
    let table' := ofRegistry .standard ((Registry.ofList ds).extend ds.reverse)
    ds.reverse ⊆ ds ∧
      Repeats (Registry.ofList ds.reverse).wellFormedSites table table' ∧
      table'.declarations.map (fun d => d.sites.length) = [2, 2] ∧
      table.diagnostics.length = 3 ∧ table'.diagnostics.length = 4 := by
  intro ds table table'
  have hreverse : ds.reverse ⊆ ds := fun d hd => List.mem_reverse.mp hd
  exact ⟨hreverse, repeats_extend .standard hreverse, by decide +kernel⟩

end Overlay
