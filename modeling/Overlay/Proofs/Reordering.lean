/-
Registering in another order.

When the same declarations are registered in another order, other overloads may come first, and with
them other members, declarations and reports.  Beside that nothing changes:

* `Overload.match_firsts` — of overloads in another order, as many are kept, and alike ones;
* `Registry.wellFormed_perm` — the well-formed declarations of a key are the same, in another order;
* `Merge.reordered_union` — what they say together differs in order only;
* `Merged.reordered_of_perm` — so does a whole merge, with what it reports.
-/
import Overlay.Proofs.Reports

namespace Overlay

/-! ### What may differ -/

/-- Overload lists that match one to one, each overload with an alike one. -/
def Overload.Match (os os' : List Overload) : Prop :=
  ∃ matched, matched.Perm os' ∧
    List.Forall₂ (fun o o' => o.signature.alike o'.signature = true) os matched

/-- Declarations that differ in the order of members, overloads and sites, and in which of alike
overloads they keep. -/
structure Declaration.Reordered (d d' : Declaration) : Prop where
  isStub : d.isStub = d'.isStub
  names : (d.members.map Member.name).Perm (d'.members.map Member.name)
  sites : d.sites.Perm d'.sites
  overloads : ∀ m ∈ d.members, ∀ m' ∈ d'.members, m.name = m'.name →
    m.overloads.length = m'.overloads.length ∧ Overload.Match m.overloads m'.overloads

/-- The reports on further overloads of a name that merging makes for a key. -/
def Registry.reportsOn (options : Options) (registry : Registry) (key : Key) (name : String) :
    List Diagnostic :=
  if options.reportOverloads then
    Merge.reportsOn key name ((registry.wellFormed key).flatMap Declaration.overloads)
  else []

/-- Those reports for all keys and names. -/
def Registry.allReports (options : Options) (registry : Registry) : List Diagnostic :=
  registry.keys.flatMap fun key =>
    (Merge.memberNames (registry.wellFormed key)).flatMap (registry.reportsOn options key)

/-- Registries that are merged to the same, up to order and to which of alike overloads are kept. -/
structure Merged.Reordered (options : Options) (registry registry' : Registry) : Prop where
  keys : (ofRegistry options registry).keys.Perm (ofRegistry options registry').keys
  declarations : ∀ d ∈ (ofRegistry options registry).declarations,
    ∀ d' ∈ (ofRegistry options registry').declarations, d.key = d'.key → d.Reordered d'
  malformed :
    (Diagnostic.withKind .malformedSignature (ofRegistry options registry).diagnostics).Perm
      (Diagnostic.withKind .malformedSignature (ofRegistry options registry').diagnostics)
  /-- Each report on an overload is one on a name in a key, … -/
  allReports : (registry.allReports options).Perm
    (Diagnostic.withKind .overloadAmbiguity (ofRegistry options registry).diagnostics)
  allReports' : (registry'.allReports options).Perm
    (Diagnostic.withKind .overloadAmbiguity (ofRegistry options registry').diagnostics)
  /-- … and on each name in each key there are as many. -/
  reportsOn : ∀ key name, (registry.reportsOn options key name).length
    = (registry'.reportsOn options key name).length

/-! ### Overload lists -/

namespace Overload

/-- Without the names of parameters, the overloads that are kept are those that came first. -/
theorem map_nameless_firsts (os : List Overload) :
    (firsts os).map (fun o => o.signature.nameless)
      = (os.map fun o => o.signature.nameless).eraseDups := by
  induction os using List.reverseRecOn with
  | nil => rfl
  | append_singleton os o ih =>
    have hin : o.isIn os = true ↔ o.signature.nameless ∈ os.map fun o => o.signature.nameless := by
      simp only [isIn_iff, Signature.alike_iff, List.mem_map]
    rw [firsts_concat, List.map_append, List.map_singleton, eraseDups_concat, ← ih]
    by_cases h : o.isIn os
    · rw [if_pos h, if_pos (hin.mp h)]
    · rw [if_neg h, if_neg fun hmem => h (hin.mpr hmem), List.map_append, List.map_singleton]

theorem perm_map_nameless_firsts {os os' : List Overload} (h : os.Perm os') :
    ((firsts os).map fun o => o.signature.nameless).Perm
      ((firsts os').map fun o => o.signature.nameless) := by
  rw [map_nameless_firsts, map_nameless_firsts]
  exact eraseDups_perm (h.map _)

theorem length_firsts_of_perm {os os' : List Overload} (h : os.Perm os') :
    (firsts os).length = (firsts os').length := by
  have hlength := (perm_map_nameless_firsts h).length_eq
  rwa [List.length_map, List.length_map] at hlength

/-- Of overloads in another order, the kept ones match those that were kept before. -/
theorem match_firsts {os os' : List Overload} (h : os.Perm os') :
    Match (firsts os) (firsts os') := by
  obtain ⟨matched, hperm, hmatched⟩ :=
    exists_perm_forall₂_of_map_perm (perm_map_nameless_firsts h)
  refine ⟨matched, hperm, hmatched.imp fun o o' hnameless => ?_⟩
  exact (Signature.alike_iff _ _).mpr hnameless

end Overload

/-! ### Declarations -/

theorem Registry.keys_perm {ds ds' : List Declaration} (h : ds.Perm ds') :
    (ofList ds).keys.Perm (ofList ds').keys := by
  rw [keys_ofList, keys_ofList]
  exact eraseDups_perm (h.map _)

theorem Registry.sites_perm {ds ds' : List Declaration} (h : ds.Perm ds') (key : Key) :
    ((ofList ds).sites key).Perm ((ofList ds').sites key) := by
  rw [sites_ofList, sites_ofList]
  exact h.filter _

theorem Registry.wellFormed_perm {ds ds' : List Declaration} (h : ds.Perm ds') (key : Key) :
    ((ofList ds).wellFormed key).Perm ((ofList ds').wellFormed key) :=
  (sites_perm h key).filter _

namespace Merge

theorem memberNames_perm {ds ds' : List Declaration} (h : ds.Perm ds') :
    (memberNames ds).Perm (memberNames ds') :=
  eraseDups_perm (((h.flatMap_right _).filter _).map _)

theorem overloadsNamed_perm {ds ds' : List Declaration} (h : ds.Perm ds') (name : String) :
    (overloadsNamed name ds).Perm (overloadsNamed name ds') :=
  ((h.flatMap_right _).filter _).flatMap_right _

/-- What declarations say together does not depend on their order, up to order. -/
theorem reordered_union (key : Key) {ds ds' : List Declaration} (h : ds.Perm ds') :
    (union key ds).Reordered (union key ds') where
  isStub := by
    rw [Bool.eq_iff_iff, isStub_union, isStub_union]
    exact ⟨fun hstub d hd => hstub d (h.mem_iff.mpr hd),
      fun hstub d hd => hstub d (h.mem_iff.mp hd)⟩
  names := by
    rw [names_union, names_union]
    exact memberNames_perm h
  sites := h.filterMap _
  overloads := by
    intro m hm m' hm' hname
    rw [members_union, List.mem_map] at hm hm'
    obtain ⟨name, -, rfl⟩ := hm
    obtain ⟨name', -, rfl⟩ := hm'
    -- in both, the member is made of the overloads of its name
    obtain rfl : name = name' := hname
    exact ⟨Overload.length_firsts_of_perm (overloadsNamed_perm h name),
      Overload.match_firsts (overloadsNamed_perm h name)⟩

end Merge

/-! ### Merges -/

/-- The number of reports on a name is that of the kept overloads behind the first one. -/
theorem Registry.length_reportsOn (options : Options) (registry : Registry) (key : Key)
    (name : String) : (registry.reportsOn options key name).length
      = if options.reportOverloads then
          (Overload.firsts (Merge.overloadsNamed name (registry.wellFormed key))).length - 1
        else 0 := by
  rw [reportsOn]
  split
  · rw [Merge.reportsOn_eq, Member.length_ambiguities, Merge.named_flatMap_overloads]
  · rfl

namespace Merged

theorem perm_allReports (options : Options) (ds : List Declaration) :
    ((Registry.ofList ds).allReports options).Perm
      (Diagnostic.withKind .overloadAmbiguity
        (ofRegistry options (.ofList ds)).diagnostics) := by
  rw [withKind_overloadAmbiguity, Registry.allReports]
  by_cases h : options.reportOverloads
  · rw [if_pos h]
    refine .flatMap_left _ fun key _ => ?_
    -- under a key, the reports go by the names of members
    have hreports : (Registry.ofList ds).reportsOn options key = fun name =>
        Merge.reportsOn key name
          (((Registry.ofList ds).wellFormed key).flatMap Declaration.overloads) :=
      funext fun name => if_pos h
    rw [hreports, ← Merge.eraseDups_map_fst_overloads]
    exact Merge.perm_furtherReports key _
  · rw [if_neg h]
    have hnone : (Registry.ofList ds).reportsOn options = fun _ _ => [] :=
      funext fun key => funext fun name => if_neg h
    simp [hnone]

theorem keys_perm (options : Options) {ds ds' : List Declaration} (h : ds.Perm ds') :
    (ofRegistry options (.ofList ds)).keys.Perm (ofRegistry options (.ofList ds')).keys := by
  have hsame : ∀ key, (Registry.ofList ds).wellFormed key ≠ []
      ↔ (Registry.ofList ds').wellFormed key ≠ [] := by
    intro key
    have hperm := Registry.wellFormed_perm h key
    exact not_congr ⟨fun hnil => (hnil ▸ hperm).nil_eq.symm, fun hnil => (hnil ▸ hperm).eq_nil⟩
  rw [keys_ofRegistry, keys_ofRegistry]
  simp only [hsame]
  exact (Registry.keys_perm h).filter _

/-- Registering declarations in another order changes only what comes first. -/
theorem reordered_of_perm (options : Options) {ds ds' : List Declaration} (h : ds.Perm ds') :
    Reordered options (.ofList ds) (.ofList ds') where
  keys := keys_perm options h
  declarations := by
    intro d hd d' hd' hkey
    rw [declarations_ofRegistry, reference, List.mem_map] at hd hd'
    obtain ⟨key, -, rfl⟩ := hd
    obtain ⟨key', -, rfl⟩ := hd'
    -- what is merged under a key comes of the same declarations in another order
    obtain rfl : key = key' := hkey
    exact Merge.reordered_union key (Registry.wellFormed_perm h key)
  malformed := by
    rw [withKind_malformedSignature, withKind_malformedSignature]
    exact (Registry.keys_perm h).flatMap fun key _ => (Registry.sites_perm h key).flatMap_right _
  allReports := perm_allReports options ds
  allReports' := perm_allReports options ds'
  reportsOn := by
    intro key name
    have hperm := Merge.overloadsNamed_perm (Registry.wellFormed_perm h key) name
    rw [Registry.length_reportsOn, Registry.length_reportsOn, Overload.length_firsts_of_perm hperm]

end Merged

/-- A declaration of `JSON` in a file, with one signature of `parse`. -/
def Declaration.ofParse (file : String) (params : List (Param Ty)) : Declaration :=
  .interface (.ofGlobal "JSON") ⟨file, 0⟩ [.single "parse" ⟨params, .any⟩ ⟨file, 0⟩]

/-- Two signatures of a member, registered in either order: one of them is reported. -/
theorem Merged.reordered_ofParse :
    let first : Declaration := .ofParse "a.d.ts" [.required "text" .string]
    let second : Declaration := .ofParse "b.d.ts" [.required "text" .any]
    [first, second].Perm [second, first] ∧
      Reordered .standard (.ofList [first, second]) (.ofList [second, first]) ∧
      ((Registry.ofList [first, second]).reportsOn .standard (.ofGlobal "JSON") "parse").length
        = 1 := by
  intro first second
  refine ⟨.swap second first [], reordered_of_perm .standard (.swap second first []), ?_⟩
  decide +kernel

end Overlay
