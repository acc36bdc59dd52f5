/-
Errors.

Whether there are errors in a table can be read off the declarations that were registered: one has a
malformed signature, or a well-formed one mentions a name that no well-formed declaration answers to.
No error gets lost with an overload that is left out, as the overload it is alike mentions the same
names; and none is withdrawn.

* `Signature.references_of_alike` — alike signatures have the same names in them;
* `Lookup.rule?_eq_none_iff` — when a name stands for nothing;
* `Table.exists_isError_iff` — the errors of a table are the malformed signatures and unknown names;
* `Command.Invocation.exists_reads_of_run` — what stands behind the table of a run;
* `Table.hasErrors_iff_faulty` — when there are errors, and that the order does not matter.
-/
import Overlay.Command.Run
import Overlay.Proofs.Isolation
import Overlay.Proofs.Log
import Overlay.Proofs.Sites

namespace Overlay

/-! ### What is wrong -/

/-- No well-formed declaration answers to a name in a scope. -/
def Declaration.Unanswered (options : Options) (ds : List Declaration) (scope : Scope)
    (name : String) : Prop :=
  ∀ d ∈ ds, d.WellFormed → d.key ≠ ⟨scope, name⟩ ∧ d.key ≠ .ofGlobal name ∧
    ¬ (options.acrossModules = true ∧ d.key.scope ≠ .global ∧ d.key.name = name)

/-- A declaration has a malformed signature, or it is well formed and mentions a name that none
answers to. -/
def Declaration.Faulty (options : Options) (ds : List Declaration) : Prop :=
  (∃ d ∈ ds, ∃ m ∈ d.members, ∃ o ∈ m.overloads, o.signature.flaw? ≠ none) ∨
    ∃ d ∈ ds, d.WellFormed ∧ ∃ name, d.Mentions (.unresolved name) ∧
      Unanswered options ds d.key.scope name

namespace Command

/-- The options of a run, and the fragments that are registered in it: those of the libraries, then
those of the files. -/
structure Invocation.Reads (inv : Invocation) (files : Files) (options : Options)
    (fragments : List Fragment) : Prop where
  settings : inv.options files = .ok options
  registered : ∃ libraries own, Library.load options.libraries = .ok libraries ∧
    List.Forall₂ (fun name fragment => ∃ text, files.text name = .ok text ∧
      Fragment.ofText name text = .ok fragment) inv.files own ∧ fragments = libraries ++ own

end Command

/-! ### Names in alike signatures -/

theorem Ty.references_nameless (t : Ty) : t.nameless.references = t.references := by
  induction t using Ty.induction with
  | function s params result =>
    have hparams : s.nameless.params.flatMap (·.type.references)
        = s.params.flatMap (·.type.references) := by
      rw [Signature.nameless, List.flatMap_map]
      exact List.flatMap_congr fun p hp => params p hp
    have hresult : s.nameless.result.references = s.result.references := result
    rw [nameless_function, references_function, references_function, Signature.references,
      Signature.references, hparams, hresult]
  | any | string | void => rfl
  | unresolved name => rfl
  | declared key => rfl

theorem Signature.references_of_alike {a b : Signature} (h : a.alike b = true) :
    a.references = b.references := by
  have hnameless := congrArg Ty.references (congrArg Ty.function ((alike_iff a b).mp h))
  rwa [← Ty.nameless_function, ← Ty.nameless_function, Ty.references_nameless,
    Ty.references_nameless, Ty.references_function, Ty.references_function] at hnameless

/-- The names that are listed are those that occur, at any depth. -/
theorem Ty.occurs_unresolved_iff (name : String) (t : Ty) :
    (unresolved name).Occurs t ↔ name ∈ t.references := by
  induction t using Ty.induction with
  | function s params result =>
    rw [occurs_function_iff, references_function, Signature.references, List.mem_append,
      List.mem_flatMap, result]
    constructor
    · rintro (h | ⟨p, hp, h⟩ | h)
      · exact absurd h (by simp)
      · exact .inl ⟨p, hp, (params p hp).mp h⟩
      · exact .inr h
    · rintro (⟨p, hp, h⟩ | h)
      · exact .inr (.inl ⟨p, hp, (params p hp).mpr h⟩)
      · exact .inr (.inr h)
  | unresolved name' =>
    rw [references, List.mem_singleton]
    constructor
    · intro h
      exact Ty.unresolved.inj (h.eq_of_forall_ne_function (by simp))
    · rintro rfl
      exact .here
  -- no other type has a name in it
  | any | string | void | declared key =>
    constructor
    · intro h
      exact absurd (h.eq_of_forall_ne_function (by simp)) (by simp)
    · exact fun h => absurd h List.not_mem_nil

theorem Declaration.mentions_unresolved_iff (d : Declaration) (name : String) :
    d.Mentions (.unresolved name)
      ↔ ∃ m ∈ d.members, ∃ o ∈ m.overloads, name ∈ o.signature.references := by
  simp only [Mentions, Ty.occurs_unresolved_iff, Ty.references_function]

/-- Of each overload of a declaration, what declarations say together has an alike one. -/
theorem Merge.exists_alike_mem_union (key : Key) {ds : List Declaration} {d : Declaration}
    {m : Member} {o : Overload} (hd : d ∈ ds) (hm : m ∈ d.members) (ho : o ∈ m.overloads) :
    ∃ m' ∈ (union key ds).members, ∃ o' ∈ m'.overloads,
      o'.signature.alike o.signature = true := by
  have hnamed : o ∈ overloadsNamed m.name ds := by
    refine List.mem_flatMap.mpr ⟨m, List.mem_filter.mpr ⟨?_, decide_eq_true rfl⟩, ho⟩
    exact List.mem_flatMap.mpr ⟨d, hd, hm⟩
  have hname : m.name ∈ memberNames ds :=
    (mem_memberNames_iff m.name ds).mpr (List.ne_nil_of_mem hnamed)
  have hin : o.isIn (overloadsNamed m.name ds) = true := Overload.isIn_of_mem hnamed
  rw [← Overload.isIn_firsts] at hin
  obtain ⟨o', ho', halike⟩ := (Overload.isIn_iff _ _).mp hin
  refine ⟨⟨m.name, Overload.firsts (overloadsNamed m.name ds)⟩, ?_, o', ho', halike⟩
  rw [members_union]
  exact List.mem_map_of_mem hname

/-- Together, declarations mention the names that one of them mentions. -/
theorem Merge.mentions_union_iff (key : Key) (ds : List Declaration) (name : String) :
    (union key ds).Mentions (.unresolved name) ↔ ∃ d ∈ ds, d.Mentions (.unresolved name) := by
  refine ⟨mentions_of_union, ?_⟩
  simp only [Declaration.mentions_unresolved_iff]
  rintro ⟨d, hd, m, hm, o, ho, hname⟩
  obtain ⟨m', hm', o', ho', halike⟩ := exists_alike_mem_union key hd hm ho
  exact ⟨m', hm', o', ho', Signature.references_of_alike halike ▸ hname⟩

/-! ### Names that stand for nothing -/

theorem Lookup.rule?_eq_none_iff (keys : List Key) (acrossModules : Bool) (scope : Scope)
    (name : String) : rule? keys acrossModules scope name = none ↔
      ∀ key ∈ keys, key ≠ ⟨scope, name⟩ ∧ key ≠ ⟨.global, name⟩ ∧
        ¬ (acrossModules = true ∧ key.scope ≠ .global ∧ key.name = name) := by
  rw [rule?]
  constructor
  · intro h key hkey
    split at h
    · exact absurd h (by simp)
    next hown =>
      split at h
      · exact absurd h (by simp)
      next hglobal =>
        -- the own scope and the global one have been tried; the other modules are left
        refine ⟨fun e => hown (e ▸ hkey), fun e => hglobal (e ▸ hkey), ?_⟩
        rintro ⟨hacross, hfound⟩
        rw [if_pos hacross, List.find?_eq_none] at h
        exact h key hkey (decide_eq_true hfound)
  · intro h
    rw [if_neg fun hmem => (h _ hmem).1 rfl, if_neg fun hmem => (h _ hmem).2.1 rfl]
    split
    next hacross =>
      rw [List.find?_eq_none]
      exact fun key hkey hfound => (h key hkey).2.2 ⟨hacross, of_decide_eq_true hfound⟩
    next => rfl

theorem Lookup.ruleReports_ne_nil_iff (keys : List Key) (acrossModules : Bool)
    (ds : List Declaration) : ruleReports keys acrossModules ds ≠ [] ↔
      ∃ d ∈ ds, ∃ name, d.Mentions (.unresolved name) ∧
        rule? keys acrossModules d.key.scope name = none := by
  simp only [ruleReports, Declaration.mentions_unresolved_iff, Ne, List.flatMap_eq_nil_iff,
    List.map_eq_nil_iff, List.filter_eq_nil_iff, List.mem_eraseDups, decide_eq_true_iff]
  push Not
  constructor
  · rintro ⟨d, hd, m, hm, o, ho, name, hname, hnone⟩
    exact ⟨d, hd, name, ⟨m, hm, o, ho, hname⟩, hnone⟩
  · rintro ⟨d, hd, name, ⟨m, hm, o, ho, hname⟩, hnone⟩
    exact ⟨d, hd, m, hm, o, ho, name, hname, hnone⟩

namespace Merged

variable (options : Options) (ds : List Declaration)

/-- The keys of a merge are those of the well-formed declarations. -/
theorem mem_keys_iff (key : Key) : key ∈ (ofRegistry options (.ofList ds)).keys
    ↔ ∃ d ∈ ds, d.WellFormed ∧ d.key = key := by
  rw [mem_keys_ofRegistry, Registry.wellFormed, Registry.sites_ofList, Ne, List.filter_eq_nil_iff]
  push Not
  constructor
  · rintro ⟨d, hd, hwell⟩
    obtain ⟨hmem, hkey⟩ := List.mem_filter.mp hd
    exact ⟨d, hmem, of_decide_eq_true hwell, of_decide_eq_true hkey⟩
  · rintro ⟨d, hd, hwell, hkey⟩
    exact ⟨d, List.mem_filter.mpr ⟨hd, decide_eq_true hkey⟩, decide_eq_true hwell⟩

theorem rule?_keys_eq_none_iff (scope : Scope) (name : String) :
    Lookup.rule? (ofRegistry options (.ofList ds)).keys options.acrossModules scope name = none
      ↔ Declaration.Unanswered options ds scope name := by
  rw [Lookup.rule?_eq_none_iff]
  constructor
  · intro h d hd hwell
    exact h d.key ((mem_keys_iff options ds _).mpr ⟨d, hd, hwell, rfl⟩)
  · intro h key hkey
    obtain ⟨d, hd, hwell, rfl⟩ := (mem_keys_iff options ds key).mp hkey
    exact h d hd hwell

/-- The merged declarations mention the names that the well-formed ones mention, in their scopes. -/
theorem exists_mentions_iff (name : String) (scope : Scope) :
    (∃ d ∈ (ofRegistry options (.ofList ds)).declarations,
        d.Mentions (.unresolved name) ∧ d.key.scope = scope)
      ↔ ∃ d ∈ ds, d.WellFormed ∧ d.Mentions (.unresolved name) ∧ d.key.scope = scope := by
  rw [declarations_eq_map_keys]
  constructor
  · -- what is merged mentions what one of its well-formed declarations mentions
    rintro ⟨_, hmem, hmentions, rfl⟩
    obtain ⟨key, -, rfl⟩ := List.mem_map.mp hmem
    obtain ⟨d, hd, hname⟩ := (Merge.mentions_union_iff _ _ _).mp hmentions
    obtain ⟨hsite, hwell⟩ := List.mem_filter.mp hd
    refine ⟨d, ?_, of_decide_eq_true hwell, hname, ?_⟩
    · rw [Registry.sites_ofList] at hsite
      exact (List.mem_filter.mp hsite).1
    · rw [Registry.key_of_mem_sites hsite]
      rfl
  · -- a well-formed declaration is merged under its key
    rintro ⟨d, hd, hwell, hmentions, rfl⟩
    have hkey := (mem_keys_iff options ds d.key).mpr ⟨d, hd, hwell, rfl⟩
    refine ⟨_, List.mem_map_of_mem hkey, ?_, rfl⟩
    refine (Merge.mentions_union_iff _ _ _).mpr ⟨d, List.mem_filter.mpr ⟨?_, ?_⟩, hmentions⟩
    · rw [Registry.sites_ofList]
      exact List.mem_filter.mpr ⟨hd, decide_eq_true rfl⟩
    · exact decide_eq_true hwell

end Merged

/-! ### Errors among reports -/

namespace Diagnostic

/-- Among the kinds, only an overload is not reported as an error. -/
theorem isError_iff {d : Diagnostic} (h : d.severity = d.kind.notice.severity) :
    d.isError = true ↔ d.kind ≠ .overloadAmbiguity := by
  rw [isError, h]
  cases d.kind with
  | malformedSignature | unknownType | overloadAmbiguity => decide

end Diagnostic

theorem Merge.malformedReports_ne_nil_iff (key : Key) (ds : List Declaration) :
    malformedReports key ds ≠ []
      ↔ ∃ d ∈ ds, ∃ m ∈ d.members, ∃ o ∈ m.overloads, o.signature.flaw? ≠ none := by
  simp only [malformedReports, Ne, List.flatMap_eq_nil_iff, List.filterMap_eq_nil_iff,
    Option.map_eq_none_iff]
  push Not
  rfl

theorem Lookup.severity_of_mem_ruleReports {keys : List Key} {acrossModules : Bool}
    {ds : List Declaration} {report : Diagnostic}
    (h : report ∈ ruleReports keys acrossModules ds) :
    report.severity = report.kind.notice.severity := by
  simp only [ruleReports, List.mem_flatMap, List.mem_map] at h
  obtain ⟨_, _, _, _, _, _, _, _, rfl⟩ := h
  rfl

theorem Merge.severity_of_mem_malformedReports {key : Key} {ds : List Declaration}
    {report : Diagnostic} (h : report ∈ malformedReports key ds) :
    report.severity = report.kind.notice.severity := by
  simp only [malformedReports, List.mem_flatMap, List.mem_filterMap, Option.map_eq_some_iff] at h
  obtain ⟨_, _, _, _, _, _, _, _, rfl⟩ := h
  rfl

theorem Merge.severity_of_mem_furtherReports {key : Key} {ps : List (String × Overload)}
    {report : Diagnostic} (h : report ∈ furtherReports key ps) :
    report.severity = report.kind.notice.severity := by
  obtain ⟨⟨⟨name, o⟩, i⟩, -, h⟩ := List.mem_filterMap.mp h
  have hreport : furtherReport? key name o (named name (ps.take i)) = some report := h
  rw [furtherReport?_eq] at hreport
  generalize Overload.firsts (named name (ps.take i)) = others at hreport
  cases others with
  | nil => simp [Overload.ambiguity?] at hreport
  | cons leading rest =>
    rw [Overload.ambiguity?] at hreport
    split at hreport
    · exact absurd hreport (by simp)
    · rw [← Option.some.inj hreport]
      rfl

namespace Merged

variable (options : Options) (ds : List Declaration)

theorem severity_of_mem_diagnostics {report : Diagnostic}
    (h : report ∈ (ofRegistry options (.ofList ds)).diagnostics) :
    report.severity = report.kind.notice.severity := by
  rw [diagnostics_ofRegistry, reference, List.mem_flatMap] at h
  obtain ⟨key, -, h⟩ := h
  rcases List.mem_append.mp h with h | h
  · exact Merge.severity_of_mem_malformedReports h
  · split at h
    · exact Merge.severity_of_mem_furtherReports h
    · exact absurd h List.not_mem_nil

/-- A merge has errors if a declaration with a malformed signature is registered. -/
theorem exists_malformed_iff :
    (∃ report ∈ (ofRegistry options (.ofList ds)).diagnostics, report.kind ≠ .overloadAmbiguity)
      ↔ ∃ d ∈ ds, ∃ m ∈ d.members, ∃ o ∈ m.overloads, o.signature.flaw? ≠ none := by
  -- a merge reports on two things only
  have hkind : (∃ report ∈ (ofRegistry options (.ofList ds)).diagnostics,
        report.kind ≠ .overloadAmbiguity)
      ↔ Diagnostic.withKind .malformedSignature (ofRegistry options (.ofList ds)).diagnostics ≠ []
      := by
    rw [Diagnostic.withKind, Ne, List.filter_eq_nil_iff]
    push Not
    refine exists_congr fun report => and_congr_right fun hreport => ?_
    rcases kind_of_mem_diagnostics options ds hreport with h | h <;> simp [h]
  rw [hkind, withKind_malformedSignature, Ne, List.flatMap_eq_nil_iff]
  push Not
  simp only [Merge.malformedReports_ne_nil_iff, Registry.sites_ofList]
  constructor
  · rintro ⟨key, -, d, hd, hflaw⟩
    exact ⟨d, (List.mem_filter.mp hd).1, hflaw⟩
  · rintro ⟨d, hd, hflaw⟩
    refine ⟨d.key, ?_, d, List.mem_filter.mpr ⟨hd, decide_eq_true rfl⟩, hflaw⟩
    rw [Registry.keys_ofList]
    exact List.mem_eraseDups.mpr (List.mem_map_of_mem hd)

end Merged

namespace Table

variable (options : Options) (ds : List Declaration)

/-- No error is withdrawn, and none comes but for a name that stands for nothing. -/
theorem exists_isError_iff :
    (∃ report ∈ (ofRegistry options (.ofList ds)).diagnostics, report.isError = true) ↔
      (∃ report ∈ (Merged.ofRegistry options (.ofList ds)).diagnostics,
        report.kind ≠ .overloadAmbiguity) ∨
      Lookup.ruleReports (Merged.ofRegistry options (.ofList ds)).keys options.acrossModules
        (Merged.ofRegistry options (.ofList ds)).declarations ≠ [] := by
  rw [diagnostics_ofRegistry]
  constructor
  · rintro ⟨report, hreport, herror⟩
    rcases List.mem_append.mp hreport with hmerged | hrule
    · have hmem := (List.mem_filter.mp hmerged).1
      have hseverity := Merged.severity_of_mem_diagnostics options ds hmem
      exact .inl ⟨report, hmem, (Diagnostic.isError_iff hseverity).mp herror⟩
    · exact .inr (List.ne_nil_of_mem hrule)
  · rintro (⟨report, hmem, hkind⟩ | hne)
    · have hseverity := Merged.severity_of_mem_diagnostics options ds hmem
      -- only a report on an overload can be withdrawn, and that is no error
      have hstands : report.stands ((Merged.ofRegistry options (.ofList ds)).collapsedSites options)
          = true := by simp [Diagnostic.stands, hkind]
      exact ⟨report, List.mem_append_left _ (List.mem_filter.mpr ⟨hmem, hstands⟩),
        (Diagnostic.isError_iff hseverity).mpr hkind⟩
    · obtain ⟨report, hreport⟩ := List.exists_mem_of_ne_nil _ hne
      have hseverity := Lookup.severity_of_mem_ruleReports hreport
      refine ⟨report, List.mem_append_right _ hreport, (Diagnostic.isError_iff hseverity).mpr ?_⟩
      rw [Lookup.kind_of_mem_ruleReports hreport]
      decide

theorem hasErrors_iff : (ofRegistry options (.ofList ds)).hasErrors = true
    ↔ Declaration.Faulty options ds := by
  rw [hasErrors, log, Diagnostic.Log.hasErrors_ofList, exists_isError_iff,
    Merged.exists_malformed_iff, Lookup.ruleReports_ne_nil_iff, Declaration.Faulty]
  simp only [Merged.rule?_keys_eq_none_iff]
  refine or_congr_right ?_
  constructor
  · rintro ⟨d, hd, name, hmentions, hnone⟩
    obtain ⟨d', hd', hwell, hmentions', hscope⟩ :=
      (Merged.exists_mentions_iff options ds name d.key.scope).mp ⟨d, hd, hmentions, rfl⟩
    exact ⟨d', hd', hwell, name, hmentions', hscope ▸ hnone⟩
  · rintro ⟨d, hd, hwell, name, hmentions, hnone⟩
    obtain ⟨d', hd', hmentions', hscope⟩ :=
      (Merged.exists_mentions_iff options ds name d.key.scope).mpr ⟨d, hd, hwell, hmentions, rfl⟩
    exact ⟨d', hd', name, hmentions', hscope ▸ hnone⟩

/-- Errors do not depend on the order of registration. -/
theorem hasErrors_of_perm {ds ds' : List Declaration} (h : ds.Perm ds') :
    (ofRegistry options (.ofList ds)).hasErrors = (ofRegistry options (.ofList ds')).hasErrors := by
  rw [Bool.eq_iff_iff, hasErrors_iff, hasErrors_iff]
  simp only [Declaration.Faulty, Declaration.Unanswered, h.mem_iff]

end Table

/-! ### Steps that can fail -/

section

variable {ε ε' α β : Type} {x : Except ε α}

theorem exists_of_bind_eq_ok {f : α → Except ε β} {b : β} (h : x >>= f = .ok b) :
    ∃ a, x = .ok a ∧ f a = .ok b := by
  cases x with
  | error e => exact absurd h nofun
  | ok a => exact ⟨a, rfl, h⟩

theorem eq_ok_of_mapError_eq_ok {f : ε → ε'} {a : α} (h : x.mapError f = .ok a) : x = .ok a := by
  cases x with
  | error e => exact absurd h nofun
  | ok a' => rw [Except.ok.inj h]

end

/-! ### Runs of the command -/

namespace Command

/-- The files of a run are read and registered one after the other. -/
theorem Files.exists_of_foldlM {files : Files} {names : List String} {session built : Session}
    (h : names.foldlM (fun session name => do
      let text ← files.text name
      let fragment ← (Fragment.ofText name text).mapError (Trouble.badRecords name)
      Except.ok (session.add fragment)) session = .ok built) :
    ∃ fragments, List.Forall₂ (fun name fragment => ∃ text, files.text name = .ok text ∧
        Fragment.ofText name text = .ok fragment) names fragments ∧
      built = ⟨session.options, fragments.foldl Registry.addFragment session.registry⟩ := by
  induction names generalizing session with
  | nil => exact ⟨[], .nil, (Except.ok.inj h).symm⟩
  | cons name names ih =>
    rw [List.foldlM_cons] at h
    -- the first file is read, its records are decoded, and they are added
    obtain ⟨next, hnext, hrest⟩ := exists_of_bind_eq_ok h
    obtain ⟨text, htext, hread⟩ := exists_of_bind_eq_ok hnext
    obtain ⟨fragment, hfragment, hadd⟩ := exists_of_bind_eq_ok hread
    rw [← Except.ok.inj hadd] at hrest
    obtain ⟨fragments, hfragments, hbuilt⟩ := ih hrest
    exact ⟨fragment :: fragments,
      .cons ⟨text, htext, eq_ok_of_mapError_eq_ok hfragment⟩ hfragments, hbuilt⟩

/-- The table of a run is that of the fragments that are registered in it. -/
theorem Invocation.exists_reads_of_run {inv : Invocation} {files : Files} {outcome : Outcome}
    (h : inv.run files = .ok outcome) : ∃ options fragments, inv.Reads files options fragments ∧
      outcome.table = .ofRegistry options (.ofList (fragments.flatMap Fragment.declarations)) := by
  -- the steps of a run, from the last to the first
  obtain ⟨table, htable, houtput⟩ := exists_of_bind_eq_ok h
  obtain ⟨output, -, houtcome⟩ := exists_of_bind_eq_ok houtput
  obtain ⟨options, hoptions, hsession⟩ := exists_of_bind_eq_ok htable
  obtain ⟨session, hstart, hfiles⟩ := exists_of_bind_eq_ok hsession
  obtain ⟨built, hbuilt, hbuild⟩ := exists_of_bind_eq_ok hfiles
  obtain ⟨own, hown, rfl⟩ := Files.exists_of_foldlM hbuilt
  -- a session starts with its libraries
  cases hload : Library.load options.libraries with
  | error unknown =>
    rw [Session.start, hload] at hstart
    exact absurd hstart nofun
  | ok libraries =>
    rw [Session.start, hload] at hstart
    have hstarted : (⟨options, libraries.foldl Registry.addFragment .empty⟩ : Session) = session :=
      Except.ok.inj hstart
    refine ⟨options, libraries ++ own, ⟨hoptions, libraries, own, hload, hown, rfl⟩, ?_⟩
    rw [← Registry.foldl_addFragment, List.foldl_append, ← Except.ok.inj houtcome,
      ← Except.ok.inj hbuild, ← hstarted]
    rfl

end Command

theorem Command.Outcome.exitCode_eq_one_iff (outcome : Outcome) :
    outcome.exitCode = 1 ↔ outcome.table.hasErrors = true := by
  rw [exitCode]
  by_cases h : outcome.table.hasErrors <;> simp [h]

/-! ### When there are errors -/

/-- There are errors in a table if and only if something is wrong among the registered declarations,
in whatever order they come, and then the command ends with the exit code one. -/
theorem Table.hasErrors_iff_faulty (options : Options) (ds : List Declaration) :
    ((ofRegistry options (.ofList ds)).hasErrors = true ↔ Declaration.Faulty options ds) ∧
      (∀ ds', ds.Perm ds' → (ofRegistry options (.ofList ds)).hasErrors
        = (ofRegistry options (.ofList ds')).hasErrors) ∧
      ∀ (inv : Command.Invocation) (files : Command.Files) (outcome : Command.Outcome),
        inv.run files = .ok outcome → ∃ options fragments, inv.Reads files options fragments ∧
          (outcome.exitCode = 1 ↔
            Declaration.Faulty options (fragments.flatMap Fragment.declarations)) := by
  refine ⟨hasErrors_iff options ds, fun ds' h => hasErrors_of_perm options h, ?_⟩
  intro inv files outcome h
  obtain ⟨options, fragments, hreads, htable⟩ := inv.exists_reads_of_run h
  refine ⟨options, fragments, hreads, ?_⟩
  rw [outcome.exitCode_eq_one_iff, htable, hasErrors_iff]

/-! ### A name that nothing answers to -/

/-- A run on one file. -/
def Command.Invocation.onFile : Invocation :=
  { plain with files := ["a.d.ts"] }

/-- Every file holds one record, in which `Foo` takes an argument of the type `A`. -/
def Command.Files.oneRecord : Files := fun _ =>
  .ok "[\x7b\"kind\": \"interfaceMember\", \"interfaceName\": \"Foo\", \"memberName\": \"f\",
    \"parameters\": [\x7b\"name\": \"x\", \"typeRef\": \"A\"\x7d]\x7d]"

/-- In two files, `A` and `B` are declared nowhere, so that there are errors in either order, and in
the run `A` is not found among the libraries, either. -/
theorem Table.hasErrors_twoFiles :
    let ds := Fragment.twoFiles.flatMap Fragment.declarations
    ds.Perm ds.reverse ∧ (ofRegistry .standard (.ofList ds.reverse)).hasErrors = true ∧
      Declaration.Faulty .standard ds ∧
      ∃ outcome, Command.Invocation.onFile.run Command.Files.oneRecord = .ok outcome ∧
        outcome.exitCode = 1 ∧
        ∃ options fragments,
          Command.Invocation.onFile.Reads Command.Files.oneRecord options fragments ∧
          Declaration.Faulty options (fragments.flatMap Fragment.declarations) := by
  intro ds
  obtain ⟨hiff, hperm, hrun⟩ := hasErrors_iff_faulty .standard ds
  have herrors : (ofRegistry .standard (.ofList ds)).hasErrors = true := by decide +kernel
  have hreverse : ds.Perm ds.reverse := (List.reverse_perm ds).symm
  have hcode : (Command.Invocation.onFile.run Command.Files.oneRecord).toOption.map
      Command.Outcome.exitCode = some 1 := by decide +kernel
  refine ⟨hreverse, (hperm _ hreverse).symm.trans herrors, hiff.mp herrors, ?_⟩
  -- the run ends, as the code that is known of it shows
  cases houtcome : Command.Invocation.onFile.run Command.Files.oneRecord with
  | error trouble => rw [houtcome] at hcode; exact absurd hcode nofun
  | ok outcome =>
    rw [houtcome] at hcode
    have hone : outcome.exitCode = 1 := Option.some.inj hcode
    obtain ⟨options, fragments, hreads, hfaulty⟩ := hrun _ _ _ houtcome
    exact ⟨outcome, rfl, hone, options, fragments, hreads, hfaulty.mp hone⟩

end Overlay
