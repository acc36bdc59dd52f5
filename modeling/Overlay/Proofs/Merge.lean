/-
What merging comes to.

`Merged.reference` says without any state what is left of a registry.  Of each key with a well-formed
declaration there is one declaration; it has the members of all well-formed ones, and for a member
the overloads of that name that are alike no earlier one.  It says the same of the reports: each
malformed signature is reported, and each overload that is neither the first of its name nor alike an
earlier one.

* `Merge.members_foldl_add`, `Merge.reports_foldl_add` — what one overload after the other makes of
  the overload lists and of the reports;
* `Merge.foldl_take` — whether reports are kept makes no difference to the lists;
* `Merge.join_eq_union` — what well-formed declarations are joined to;
* `Merged.ofRegistry_eq_reference` — merging a registry gives the reference.
-/
import Overlay.Proofs.Overload
import Overlay.Proofs.Registry
import Mathlib.Data.List.Basic

namespace Overlay

/-! ### The reference -/

/-- Whether no signature of a declaration has a flaw. -/
def Declaration.WellFormed (d : Declaration) : Prop :=
  ∀ m ∈ d.members, ∀ o ∈ m.overloads, o.signature.flaw? = none

instance : DecidablePred Declaration.WellFormed := fun d =>
  inferInstanceAs (Decidable (∀ m ∈ d.members, ∀ o ∈ m.overloads, o.signature.flaw? = none))

/-- The well-formed declarations of a key, in the order in which they were registered. -/
def Registry.wellFormed (registry : Registry) (key : Key) : List Declaration :=
  (registry.sites key).filter fun d => d.WellFormed

namespace Merge

/-- The names of members in declarations, each where it appears first.  Members have overloads; one
that had none would leave no name. -/
def memberNames (ds : List Declaration) : List String :=
  (((ds.flatMap Declaration.members).filter fun m => m.overloads ≠ []).map Member.name).eraseDups

/-- The overloads of a name in declarations, in order. -/
def overloadsNamed (name : String) (ds : List Declaration) : List Overload :=
  ((ds.flatMap Declaration.members).filter fun m => m.name = name).flatMap Member.overloads

/-- The declaration of a key that says what well-formed ones say together. -/
def union (key : Key) (ds : List Declaration) : Declaration where
  key := key
  body :=
    if ∀ d ∈ ds, d.body = .stub then .stub
    else .interface
      ((memberNames ds).map fun name => ⟨name, Overload.firsts (overloadsNamed name ds)⟩)
  sites := ds.filterMap Declaration.site?

/-- One report for each signature with a flaw. -/
def malformedReports (key : Key) (ds : List Declaration) : List Diagnostic :=
  ds.flatMap fun d => d.members.flatMap fun m => m.overloads.filterMap fun o =>
    o.signature.flaw?.map fun flaw =>
      .ofKind .malformedSignature o.site [key.member m.name, flaw.text, key.text]

/-- The overloads of a name among overloads with the names of their members. -/
def named (name : String) (ps : List (String × Overload)) : List Overload :=
  (ps.filter fun p => p.1 = name).map Prod.snd

/-- The report on an overload behind earlier ones of its name, unless it is the first of them or
alike one of them.  Its number counts the earlier ones that are alike none before them. -/
def furtherReport? (key : Key) (name : String) (o : Overload) (earlier : List Overload) :
    Option Diagnostic :=
  match earlier with
  | [] => none
  | leading :: _ =>
    if ∃ other ∈ earlier, other.signature.alike o.signature then none
    else some <|
      (Diagnostic.ofKind .overloadAmbiguity o.site
        [key.member name, o.signature.text,
          toString ((Overload.firsts earlier).length + 1)]).withRelated
        leading.site
        ("Highest-priority overload '" ++ leading.signature.text ++ "' is declared here.")

/-- The reports on further overloads, in the order of the overloads. -/
def furtherReports (key : Key) (ps : List (String × Overload)) : List Diagnostic :=
  ps.zipIdx.filterMap fun ((name, o), i) => furtherReport? key name o (named name (ps.take i))

end Merge

/-- What is left of a registry, and what there is to report. -/
def Merged.reference (options : Options) (registry : Registry) : Merged where
  declarations :=
    (registry.keys.filter fun key => registry.wellFormed key ≠ []).map fun key =>
      Merge.union key (registry.wellFormed key)
  diagnostics := registry.keys.flatMap fun key =>
    Merge.malformedReports key (registry.sites key) ++
      if options.reportOverloads then
        Merge.furtherReports key ((registry.wellFormed key).flatMap Declaration.overloads)
      else []

/-! ### Well-formed declarations -/

theorem Declaration.isSound_iff (d : Declaration) : d.isSound = true ↔ d.WellFormed := by
  simp only [isSound, overloads, List.all_flatMap, List.all_map, List.all_eq_true,
    Function.comp_apply, Option.isNone_iff_eq_none, WellFormed]

theorem Registry.filter_isSound (registry : Registry) (key : Key) :
    (registry.sites key).filter Declaration.isSound = registry.wellFormed key := by
  refine List.filter_congr fun d _ => ?_
  rw [Bool.eq_iff_iff, decide_eq_true_iff]
  exact d.isSound_iff

theorem Registry.wellFormed_append (ds es : List Declaration) (key : Key) :
    (ofList (ds ++ es)).wellFormed key
      = (ofList ds).wellFormed key ++ (ofList es).wellFormed key := by
  rw [wellFormed, sites_append, List.filter_append]
  rfl

theorem Registry.wellFormed_append_ne_nil {ds : List Declaration} {key : Key}
    (h : (ofList ds).wellFormed key ≠ []) (es : List Declaration) :
    (ofList (ds ++ es)).wellFormed key ≠ [] := by
  rw [wellFormed_append]
  exact List.append_ne_nil_of_left_ne_nil h _

theorem Registry.mem_of_mem_wellFormed {ds : List Declaration} {key : Key} {d : Declaration}
    (h : d ∈ (ofList ds).wellFormed key) : d ∈ ds := by
  have hsite := List.mem_of_mem_filter h
  rw [sites_ofList] at hsite
  exact List.mem_of_mem_filter hsite

namespace Merge

/-! ### One overload after the other -/

theorem named_eq_nil_iff (name : String) (ps : List (String × Overload)) :
    named name ps = [] ↔ name ∉ ps.map Prod.fst := by
  rw [named, List.map_eq_nil_iff, List.filter_eq_nil_iff]
  constructor
  · intro h hmem
    obtain ⟨p, hp, rfl⟩ := List.mem_map.mp hmem
    exact h p hp (decide_eq_true rfl)
  · intro h p hp hname
    exact h (List.mem_map.mpr ⟨p, hp, of_decide_eq_true hname⟩)

theorem furtherReports_concat (key : Key) (ps : List (String × Overload))
    (p : String × Overload) : furtherReports key (ps ++ [p])
      = furtherReports key ps ++ (furtherReport? key p.1 p.2 (named p.1 ps)).toList := by
  have hearlier : ps.zipIdx.filterMap (fun ((name, o), i) =>
        furtherReport? key name o (named name ((ps ++ [p]).take i)))
      = furtherReports key ps := by
    refine List.filterMap_congr fun ⟨⟨name, o⟩, i⟩ h => ?_
    show furtherReport? key name o (named name ((ps ++ [p]).take i)) = _
    rw [take_append_of_mem_zipIdx h]
  rw [furtherReports, List.zipIdx_append, List.filterMap_append, hearlier]
  congr 1
  cases h : furtherReport? key p.1 p.2 (named p.1 ps) <;> simp [h]

/-- The report on an overload is the one on it behind the list that is kept of the earlier ones. -/
theorem furtherReport?_eq (key : Key) (name : String) (o : Overload) (earlier : List Overload) :
    furtherReport? key name o earlier = o.ambiguity? key name (Overload.firsts earlier) := by
  have hhead := Overload.head?_firsts earlier
  cases earlier with
  | nil => rfl
  | cons leading rest =>
    obtain ⟨kept, hkept⟩ := List.head?_eq_some_iff.mp (hhead.trans (List.head?_cons ..))
    have hin := Overload.isIn_firsts o (leading :: rest)
    simp only [furtherReport?, ← Overload.isIn_iff, ← hin, hkept, Overload.ambiguity?,
      Overload.ambiguity]

theorem foldl_add_members (key : Key) (ps : List (String × Overload)) :
    (ps.foldl (State.add key) ⟨[], []⟩).members
      = ps.foldl (fun members p =>
          Assoc.alter p.1 (fun others? => Overload.addNew (others?.getD []) p.2) members) [] := by
  induction ps using List.reverseRecOn with
  | nil => rfl
  | append_singleton ps p ih =>
    rw [List.foldl_append, List.foldl_append, ← ih]
    rfl

/-- After any overloads, the list of a name holds the first ones of that name. -/
theorem get?_members_foldl_add (key : Key) (ps : List (String × Overload)) (name : String) :
    (ps.foldl (State.add key) ⟨[], []⟩).members.get? name
      = if named name ps = [] then none else some (Overload.firsts (named name ps)) := by
  rw [foldl_add_members, Assoc.get?_foldl_alter Prod.fst
    (fun p others? => Overload.addNew (others?.getD []) p.2)]
  rw [Assoc.foldl_some_getD (fun others (p : String × Overload) => Overload.addNew others p.2) [],
    named, ← Overload.foldl_addNew, List.foldl_map]
  simp only [List.map_eq_nil_iff]

theorem members_foldl_add (key : Key) (ps : List (String × Overload)) :
    (ps.foldl (State.add key) ⟨[], []⟩).members
      = (ps.map Prod.fst).eraseDups.map fun name => (name, Overload.firsts (named name ps)) := by
  have hkeys : Assoc.keys (ps.foldl (State.add key) ⟨[], []⟩).members
      = (ps.map Prod.fst).eraseDups := by
    rw [foldl_add_members]
    exact Assoc.keys_foldl_alter Prod.fst
      (fun p others? => Overload.addNew (others?.getD []) p.2) ps
  rw [← hkeys]
  refine Assoc.eq_map_keys (hkeys ▸ nodup_eraseDups _) fun name hname => ?_
  rw [hkeys, List.mem_eraseDups] at hname
  -- a key of the lists is a name of some overload
  have hnamed : named name ps ≠ [] := fun h => (named_eq_nil_iff name ps).mp h hname
  rw [get?_members_foldl_add, if_neg hnamed]

theorem reports_foldl_add (key : Key) (ps : List (String × Overload)) :
    (ps.foldl (State.add key) ⟨[], []⟩).reports = furtherReports key ps := by
  induction ps using List.reverseRecOn with
  | nil => rfl
  | append_singleton ps p ih =>
    obtain ⟨name, o⟩ := p
    -- what a step reports depends on the earlier ones through the list of the name alone
    have hothers := get?_members_foldl_add key ps name
    rw [List.foldl_append, List.foldl_cons, List.foldl_nil, furtherReports_concat, ← ih, State.add,
      hothers, furtherReport?_eq]
    by_cases h : named name ps = [] <;> simp [h]

/-- Whether reports are kept makes no difference to the overload lists. -/
theorem foldl_take (options : Options) (key : Key) (ps : List (String × Overload)) :
    ps.foldl (State.take options key) ⟨[], []⟩
      = ⟨(ps.foldl (State.add key) ⟨[], []⟩).members,
          if options.reportOverloads then (ps.foldl (State.add key) ⟨[], []⟩).reports else []⟩ := by
  induction ps using List.reverseRecOn with
  | nil => simp
  | append_singleton ps p ih =>
    rw [List.foldl_append, List.foldl_append, ih, List.foldl_cons, List.foldl_cons, List.foldl_nil,
      List.foldl_nil, State.take]
    -- what a step makes of the lists does not depend on the reports before it
    by_cases h : options.reportOverloads
    · simp only [if_pos h]
    · simp only [if_neg h]
      rfl

/-! ### Joining declarations -/

theorem flatMap_overloads (ds : List Declaration) : ds.flatMap Declaration.overloads
    = (ds.flatMap Declaration.members).flatMap fun m => m.overloads.map fun o => (m.name, o) :=
  List.flatMap_assoc.symm

theorem named_flatMap_overloads (name : String) (ds : List Declaration) :
    named name (ds.flatMap Declaration.overloads) = overloadsNamed name ds := by
  rw [flatMap_overloads, overloadsNamed, named]
  induction ds.flatMap Declaration.members with
  | nil => rfl
  | cons m ms ih =>
    rw [List.flatMap_cons, List.filter_append, List.map_append, ih, List.filter_cons]
    by_cases h : m.name = name <;> simp [h, List.filter_map, Function.comp_def]

/-- A name that comes once or more often behind others is one name behind them. -/
theorem eraseDups_append_map_const {α : Type} (names : List String) (name : String) (xs : List α) :
    (names ++ xs.map fun _ => name).eraseDups
      = if xs = [] then names.eraseDups else (names ++ [name]).eraseDups := by
  induction xs using List.reverseRecOn with
  | nil => simp
  | append_singleton xs x ih =>
    rw [List.map_append, ← List.append_assoc, List.map_singleton, eraseDups_concat, ih]
    by_cases h : xs = []
    · simp [h, eraseDups_concat]
    · simp [h]

theorem eraseDups_map_fst_overloads (ds : List Declaration) :
    ((ds.flatMap Declaration.overloads).map Prod.fst).eraseDups = memberNames ds := by
  rw [flatMap_overloads, memberNames]
  induction ds.flatMap Declaration.members using List.reverseRecOn with
  | nil => rfl
  | append_singleton ms m ih =>
    have hmem : m.name ∈ (ms.flatMap fun m => m.overloads.map fun o => (m.name, o)).map Prod.fst
        ↔ m.name ∈ (ms.filter fun m => m.overloads ≠ []).map Member.name := by
      rw [← List.mem_eraseDups, ih, List.mem_eraseDups]
    rw [List.flatMap_append, List.flatMap_singleton, List.map_append, List.map_map,
      Function.comp_def, eraseDups_append_map_const, List.filter_append, List.map_append]
    -- a member without overloads leaves no name behind
    by_cases h : m.overloads = []
    · simp [h, ih]
    · have hkept : [m].filter (fun m => m.overloads ≠ []) = [m] := by simp [h]
      rw [if_neg h, hkept, List.map_singleton, eraseDups_concat, eraseDups_concat, ih]
      simp only [hmem]

theorem join_eq_union (options : Options) (key : Key) (ds : List Declaration) :
    join options key ds = union key ds := by
  have hstub : ds.all Declaration.isStub = true ↔ ∀ d ∈ ds, d.body = .stub := by
    simp [Declaration.isStub]
  have hmembers : (members options key ds).members.map (fun list => (⟨list.1, list.2⟩ : Member))
      = (memberNames ds).map fun name => ⟨name, Overload.firsts (overloadsNamed name ds)⟩ := by
    rw [members, foldl_take, members_foldl_add, eraseDups_map_fst_overloads, List.map_map]
    simp only [Function.comp_def, named_flatMap_overloads]
  show (⟨key, if ds.all Declaration.isStub then .stub
      else .interface ((members options key ds).members.map fun list => ⟨list.1, list.2⟩),
    ds.filterMap Declaration.site?⟩ : Declaration) = _
  rw [hmembers, union]
  simp only [hstub]

/-- Where all declarations are stubs there are no names, so that this holds of a stub, too. -/
theorem members_union (key : Key) (ds : List Declaration) : (union key ds).members
    = (memberNames ds).map fun name => ⟨name, Overload.firsts (overloadsNamed name ds)⟩ := by
  by_cases hstub : ∀ d ∈ ds, d.body = .stub
  · have hnone : ds.flatMap Declaration.members = [] := by
      refine List.flatMap_eq_nil_iff.mpr fun d hd => ?_
      rw [Declaration.members, hstub d hd]
    have hbody : (union key ds).body = .stub := if_pos hstub
    rw [Declaration.members, hbody, memberNames, hnone]
    rfl
  · have hbody : (union key ds).body = .interface _ := if_neg hstub
    rw [Declaration.members, hbody]

theorem names_union (key : Key) (ds : List Declaration) :
    (union key ds).members.map Member.name = memberNames ds := by
  rw [members_union, List.map_map]
  exact List.map_id' _

theorem isStub_union (key : Key) (ds : List Declaration) :
    (union key ds).isStub = true ↔ ∀ d ∈ ds, d.body = .stub := by
  rw [Declaration.isStub, beq_iff_eq]
  show (if ∀ d ∈ ds, d.body = .stub then Body.stub else .interface _) = .stub ↔ _
  split
  next h => exact ⟨fun _ => h, fun _ => rfl⟩
  next h => exact iff_of_false (by simp) h

/-- What declarations say together, one of them says. -/
theorem exists_mem_of_mem_union {key : Key} {ds : List Declaration} {m : Member} {o : Overload}
    (hm : m ∈ (union key ds).members) (ho : o ∈ m.overloads) :
    ∃ d ∈ ds, ∃ m' ∈ d.members, m'.name = m.name ∧ o ∈ m'.overloads := by
  rw [members_union, List.mem_map] at hm
  obtain ⟨name, -, rfl⟩ := hm
  obtain ⟨m', hm', hom⟩ := List.mem_flatMap.mp (Overload.mem_of_mem_firsts ho)
  obtain ⟨hmem, hname⟩ := List.mem_filter.mp hm'
  obtain ⟨d, hd, hmd⟩ := List.mem_flatMap.mp hmem
  exact ⟨d, hd, m', hmd, of_decide_eq_true hname, hom⟩

theorem declaration?_eq (options : Options) (registry : Registry) (key : Key) :
    declaration? options key (registry.sites key)
      = if registry.wellFormed key ≠ [] then some (union key (registry.wellFormed key))
        else none := by
  rw [declaration?, registry.filter_isSound]
  cases h : registry.wellFormed key with
  | nil => rfl
  | cons first rest => simp [join_eq_union]

/-! ### Reports -/

/-- A declaration that stands under its own key reports its flaws under that key. -/
theorem malformed_eq {key : Key} {d : Declaration} (h : d.key = key) :
    d.malformed = malformedReports key [d] := by
  subst h
  simp only [Declaration.malformed, Declaration.overloads, malformedReports,
    List.filterMap_flatMap, List.filterMap_map, List.flatMap_singleton]
  rfl

theorem flatMap_malformed {key : Key} {ds : List Declaration} (h : ∀ d ∈ ds, d.key = key) :
    ds.flatMap Declaration.malformed = malformedReports key ds := by
  rw [malformedReports]
  refine List.flatMap_congr fun d hd => ?_
  rw [malformed_eq (h d hd), malformedReports, List.flatMap_singleton]

theorem reports_eq (options : Options) (ds : List Declaration) (key : Key) :
    reports options key ((Registry.ofList ds).sites key)
      = malformedReports key ((Registry.ofList ds).sites key) ++
        if options.reportOverloads then
          furtherReports key (((Registry.ofList ds).wellFormed key).flatMap Declaration.overloads)
        else [] := by
  rw [reports, flatMap_malformed fun d hd => Registry.key_of_mem_sites hd,
    Registry.filter_isSound, members, foldl_take, reports_foldl_add]

end Merge

namespace Merged

theorem declarations_ofRegistry (options : Options) (ds : List Declaration) :
    (ofRegistry options (.ofList ds)).declarations
      = (reference options (.ofList ds)).declarations := by
  rw [ofRegistry, reference, Registry.entries_eq_map_keys, List.filterMap_map]
  simp only [Function.comp_def, Merge.declaration?_eq]
  -- keys without a well-formed declaration drop out on both sides
  induction (Registry.ofList ds).keys with
  | nil => rfl
  | cons key keys ih =>
    rw [List.filterMap_cons, List.filter_cons]
    by_cases h : (Registry.ofList ds).wellFormed key = [] <;> simpa [h] using ih

theorem diagnostics_ofRegistry (options : Options) (ds : List Declaration) :
    (ofRegistry options (.ofList ds)).diagnostics
      = (reference options (.ofList ds)).diagnostics := by
  rw [ofRegistry, reference, Registry.entries_eq_map_keys, List.flatMap_map]
  simp only [Merge.reports_eq]

/-- Merging a registry gives the reference. -/
theorem ofRegistry_eq_reference (options : Options) (ds : List Declaration) :
    ofRegistry options (.ofList ds) = reference options (.ofList ds) := by
  calc ofRegistry options (.ofList ds)
      = ⟨(ofRegistry options (.ofList ds)).declarations,
          (ofRegistry options (.ofList ds)).diagnostics⟩ := rfl
    _ = ⟨(reference options (.ofList ds)).declarations,
          (reference options (.ofList ds)).diagnostics⟩ := by
      rw [declarations_ofRegistry, diagnostics_ofRegistry]
    _ = reference options (.ofList ds) := rfl

end Merged

end Overlay
