/-
What looking up names comes to.

`Lookup.rule?` says in three steps which key a name in a scope stands for.  `Declaration.ruled` puts
what it stands for in the place of every name, and keeps of each overload list those that are then
alike no earlier one.

* `Lookup.target?_ofKeys` — the lookup with its prepared list follows the rule;
* `Overload.resolve_eq` — so does an overload that is answered from the list of its own names;
* `Member.resolved_fst` — a list of which no two were alike may be left alone where no name is;
* `Table.ofMerged_eq_ruled` — the table that is built of merged declarations, and what is reported.
-/
import Overlay.Proofs.Merge
import Overlay.Table

namespace Overlay

/-! ### The rule -/

/-- The key that a name in a scope stands for: the one in that scope, or else the global one, or
else, across modules, the first one in the body of any module. -/
def Lookup.rule? (keys : List Key) (acrossModules : Bool) (scope : Scope) (name : String) :
    Option Key :=
  if ⟨scope, name⟩ ∈ keys then some ⟨scope, name⟩
  else if ⟨.global, name⟩ ∈ keys then some ⟨.global, name⟩
  else if acrossModules then keys.find? fun key => key.scope ≠ .global ∧ key.name = name
  else none

/-- The type that a name in a scope stands for: a reference to a declaration, or `any`. -/
def Lookup.ruleType (keys : List Key) (acrossModules : Bool) (scope : Scope) (name : String) : Ty :=
  match rule? keys acrossModules scope name with
  | some key => .declared key
  | none => .any

/-- The declaration with a type in the place of every name, where overloads that are then alike an
earlier one are left out. -/
def Declaration.ruled (rule : Scope → String → Ty) (d : Declaration) : Declaration where
  key := d.key
  body := match d.body with
    | .stub => .stub
    | .interface members => .interface <| members.map fun m =>
      ⟨m.name, Overload.firsts (m.overloads.map fun o =>
        ⟨o.signature.replace (rule d.key.scope), o.site⟩)⟩
  sites := d.sites

/-- One report for each name in each overload that stands for nothing. -/
def Lookup.ruleReports (keys : List Key) (acrossModules : Bool) (ds : List Declaration) :
    List Diagnostic :=
  ds.flatMap fun d => d.members.flatMap fun m => m.overloads.flatMap fun o =>
    (o.signature.references.eraseDups.filter fun name =>
      rule? keys acrossModules d.key.scope name = none).map fun name =>
        .ofKind .unknownType o.site [name, d.key.member m.name]

theorem Lookup.kind_of_mem_ruleReports {keys : List Key} {acrossModules : Bool}
    {ds : List Declaration} {report : Diagnostic}
    (h : report ∈ ruleReports keys acrossModules ds) : report.kind = .unknownType := by
  simp only [ruleReports, List.mem_flatMap, List.mem_map] at h
  obtain ⟨_, _, _, _, _, _, _, _, rfl⟩ := h
  rfl

/-! ### Lookup -/

namespace Lookup

theorem get?_fallbackOf (keys : List Key) (name : String) :
    (fallbackOf keys).get? name
      = keys.find? fun key => key.scope ≠ .global ∧ key.name = name := by
  rw [fallbackOf, Assoc.get?_foldl_alter Key.name (fun key first? => first?.getD key),
    Assoc.foldl_some_getD_first fun key => key]
  rw [List.filter_filter, Option.map_id', List.head?_filter]
  congr 1
  funext key
  rw [Bool.eq_iff_iff]
  simp [and_comm]

/-- A lookup that is prepared for some keys follows the rule for them. -/
theorem target?_ofKeys (keys : List Key) (acrossModules : Bool) (scope : Scope) (name : String) :
    (ofKeys keys acrossModules).target? scope name = rule? keys acrossModules scope name := by
  rw [target?, ofKeys, rule?, get?_fallbackOf]
  by_cases hown : (⟨scope, name⟩ : Key) ∈ keys
  · rw [if_pos hown, if_pos hown]
  · rw [if_neg hown, if_neg hown]
    by_cases hglobal : (⟨.global, name⟩ : Key) ∈ keys
    · -- the global key is not the name's own, which is missing
      have hscope : scope ≠ .global := by
        rintro rfl
        exact hown hglobal
      rw [if_pos ⟨hscope, hglobal⟩, if_pos hglobal]
      rfl
    · rw [if_neg fun h => hglobal h.2, if_neg hglobal]

example : (ofKeys [⟨.ambient "m", "T"⟩, ⟨.global, "T"⟩] true).target? (.ambient "n") "T"
    = some ⟨.global, "T"⟩ := by
  decide

/-- The rule leads to one of the keys. -/
theorem mem_of_rule? {keys : List Key} {acrossModules : Bool} {scope : Scope} {name : String}
    {key : Key} (h : rule? keys acrossModules scope name = some key) : key ∈ keys := by
  rw [rule?] at h
  split at h
  -- found in the own scope, in the global one, or in the body of a module
  next hown =>
    rw [← Option.some.inj h]
    exact hown
  next =>
    split at h
    next hglobal =>
      rw [← Option.some.inj h]
      exact hglobal
    next =>
      split at h
      · exact List.mem_of_find?_eq_some h
      · exact absurd h (by simp)

/-- Each name that was asked for is answered once. -/
theorem answers_eq (lookup : Lookup) (scope : Scope) (names : List String) :
    lookup.answers scope names
      = names.eraseDups.map fun name => (name, lookup.target? scope name) := by
  have hkeys : (lookup.answers scope names).keys = names.eraseDups := by
    have h := Assoc.keys_foldl_alter (fun name : String => name)
      (fun name answer? => answer?.getD (lookup.target? scope name)) names
    rwa [List.map_id'] at h
  rw [← hkeys]
  refine Assoc.eq_map_keys (hkeys ▸ nodup_eraseDups names) fun name hname => ?_
  rw [hkeys, List.mem_eraseDups] at hname
  rw [answers, Assoc.get?_foldl_alter (fun name : String => name)
    (fun name answer? => answer?.getD (lookup.target? scope name)),
    Assoc.foldl_some_getD_first fun name => lookup.target? scope name, List.head?_filter]
  -- the first of the questions for a name gives the answer
  have hfind : names.find? (fun name' => decide (name' = name)) = some name := by
    have hsome : (names.find? fun name' => decide (name' = name)).isSome := by
      rw [List.find?_isSome]
      exact ⟨name, hname, decide_eq_true rfl⟩
    obtain ⟨found, hfound⟩ := Option.isSome_iff_exists.mp hsome
    have heq : found = name := by simpa using List.find?_some hfound
    rw [hfound, heq]
  rw [hfind]
  rfl

theorem typeOf_answers (lookup : Lookup) (scope : Scope) {names : List String} {name : String}
    (h : name ∈ names) :
    typeOf (lookup.answers scope names) name = (lookup.target? scope name).elim .any .declared := by
  rw [typeOf, answers_eq, Assoc.get?_map_keys, if_pos (List.mem_eraseDups.mpr h)]
  rfl

end Lookup

/-! ### Overloads -/

namespace Overload

variable (keys : List Key) (acrossModules : Bool) (scope : Scope)

theorem resolve_eq (o : Overload) : o.resolve (.ofKeys keys acrossModules) scope
    = ⟨o.signature.replace (Lookup.ruleType keys acrossModules scope), o.site⟩ := by
  rw [resolve, answers]
  congr 1
  -- the list of answers is asked for names of the signature only
  refine Signature.replace_congr fun name hname => ?_
  rw [Lookup.typeOf_answers _ _ hname, Lookup.target?_ofKeys, Lookup.ruleType]
  cases Lookup.rule? keys acrossModules scope name <;> rfl

theorem unknown_eq (o : Overload) : o.unknown (.ofKeys keys acrossModules) scope
    = o.signature.references.eraseDups.filter fun name =>
        Lookup.rule? keys acrossModules scope name = none := by
  rw [unknown, answers, Lookup.answers_eq, List.filter_map, Assoc.keys, List.map_map]
  simp only [Function.comp_def, Lookup.target?_ofKeys, List.map_id']
  refine List.filter_congr fun name _ => ?_
  cases Lookup.rule? keys acrossModules scope name <;> rfl

end Overload

/-! ### Members -/

/-- Where no two overloads of a member were alike, those that are kept are the first ones, whether
or not the list was gone through. -/
theorem Member.resolved_fst (lookup : Lookup) (scope : Scope) {m : Member}
    (h : Overload.firsts m.overloads = m.overloads) :
    (m.resolved lookup scope).1 = Overload.firsts (m.overloads.map (Overload.resolve lookup scope))
    := by
  rw [resolved]
  by_cases hnames : m.hasReferences
  · by_cases hmany : m.isOverloaded
    · simp [hnames, hmany, Overload.split_fst]
    · -- a single overload has none to collapse into
      have hlength : (m.overloads.map (Overload.resolve lookup scope)).length ≤ 1 := by
        rw [List.length_map]
        simpa [isOverloaded] using hmany
      simp [hmany, Overload.firsts_of_length_le_one hlength]
  · -- without names to look up nothing changes
    have hself : m.overloads.map (Overload.resolve lookup scope) = m.overloads := by
      calc _ = m.overloads.map id := List.map_congr_left fun o ho => by
            have hnone : o.signature.references = [] := by
              simp only [hasReferences, List.any_eq_true, not_exists, not_and] at hnames
              simpa using hnames o ho
            rw [Overload.resolve, Signature.replace_eq_self _ hnone, id]
        _ = m.overloads := List.map_id m.overloads
    simp [hnames, hself, h]

/-! ### Merged declarations -/

/-- In what a key is merged to, no two overloads of a member are alike. -/
theorem Merge.firsts_overloads_union {key : Key} {ds : List Declaration} {m : Member}
    (h : m ∈ (union key ds).members) : Overload.firsts m.overloads = m.overloads := by
  rw [members_union, List.mem_map] at h
  obtain ⟨name, -, rfl⟩ := h
  exact Overload.firsts_firsts _

namespace Merged

theorem firsts_overloads {options : Options} {ds : List Declaration} {d : Declaration}
    {m : Member} (hd : d ∈ (ofRegistry options (.ofList ds)).declarations) (hm : m ∈ d.members) :
    Overload.firsts m.overloads = m.overloads := by
  rw [declarations_ofRegistry, reference, List.mem_map] at hd
  obtain ⟨key, -, rfl⟩ := hd
  exact Merge.firsts_overloads_union hm

end Merged

theorem Declaration.resolve_eq {keys : List Key} {acrossModules : Bool} {d : Declaration}
    (h : ∀ m ∈ d.members, Overload.firsts m.overloads = m.overloads) :
    d.resolve (.ofKeys keys acrossModules) = d.ruled (Lookup.ruleType keys acrossModules) := by
  obtain ⟨key, body, sites⟩ := d
  cases body with
  | stub => rfl
  | interface ms =>
    have hmembers : ms.map (Member.resolve (.ofKeys keys acrossModules) key.scope)
        = ms.map fun m => ⟨m.name, Overload.firsts (m.overloads.map fun o =>
            ⟨o.signature.replace (Lookup.ruleType keys acrossModules key.scope), o.site⟩)⟩ := by
      refine List.map_congr_left fun m hm => ?_
      rw [Member.resolve, Member.resolved_fst _ _ (h m hm)]
      congr 2
      exact List.map_congr_left fun o _ => Overload.resolve_eq keys acrossModules key.scope o
    show (⟨key, .interface (ms.map _), sites⟩ : Declaration) = _
    rw [hmembers]
    rfl

theorem Declaration.unknownReports_eq (keys : List Key) (acrossModules : Bool) (d : Declaration) :
    d.unknownReports (.ofKeys keys acrossModules)
      = Lookup.ruleReports keys acrossModules [d] := by
  simp only [unknownReports, overloads, Overload.unknownReports, Overload.unknown_eq,
    Lookup.ruleReports, List.flatMap_assoc, List.flatMap_map, List.flatMap_singleton]

namespace Merged

variable (merged : Merged) (options : Options)

theorem declarations_resolve
    (h : ∀ d ∈ merged.declarations, ∀ m ∈ d.members, Overload.firsts m.overloads = m.overloads) :
    (merged.resolve options).declarations
      = merged.declarations.map
          (Declaration.ruled (Lookup.ruleType merged.keys options.acrossModules)) := by
  rw [resolve, lookup]
  exact List.map_congr_left fun d hd => Declaration.resolve_eq (h d hd)

/-- The sites of overloads that collapse into earlier ones. -/
def collapsedSites : List Site :=
  merged.declarations.flatMap (Declaration.collapsedSites (merged.lookup options))

/-- What was reported before stands if its site does; then come the reports on names. -/
theorem diagnostics_resolve_eq : (merged.resolve options).diagnostics
    = merged.diagnostics.filter (Diagnostic.stands (merged.collapsedSites options))
      ++ Lookup.ruleReports merged.keys options.acrossModules merged.declarations := by
  have hreports : merged.declarations.flatMap (Declaration.unknownReports (merged.lookup options))
      = Lookup.ruleReports merged.keys options.acrossModules merged.declarations := by
    rw [Lookup.ruleReports]
    refine List.flatMap_congr fun d _ => ?_
    rw [lookup, Declaration.unknownReports_eq, Lookup.ruleReports, List.flatMap_singleton]
  show (merged.diagnostics ++ _).filter _ = _
  rw [hreports, List.filter_append]
  congr 1
  -- the new reports are of another kind than those that can be withdrawn
  refine List.filter_eq_self.mpr fun d hd => ?_
  simp [Diagnostic.stands, Lookup.kind_of_mem_ruleReports hd]

/-- Only what was reported before can be withdrawn, and of that only reports on overloads. -/
theorem diagnostics_resolve :
    ∃ stands : Diagnostic → Bool, (∀ d, d.kind ≠ .overloadAmbiguity → stands d = true) ∧
      (merged.resolve options).diagnostics = merged.diagnostics.filter stands
        ++ Lookup.ruleReports merged.keys options.acrossModules merged.declarations := by
  refine ⟨Diagnostic.stands (merged.collapsedSites options), fun d hd => ?_,
    diagnostics_resolve_eq merged options⟩
  simp [Diagnostic.stands, hd]

end Merged

/-- The table that is built of merged declarations, whatever was reported before. -/
theorem Table.ofMerged_eq_ruled (mergeOptions options : Options) (ds : List Declaration)
    (incoming : List Diagnostic) :
    let merged : Merged :=
      ⟨(Merged.ofRegistry mergeOptions (.ofList ds)).declarations, incoming⟩
    (ofMerged options merged).declarations
        = merged.declarations.map
            (Declaration.ruled (Lookup.ruleType merged.keys options.acrossModules)) ∧
      ∃ stands : Diagnostic → Bool, (∀ d, d.kind ≠ .overloadAmbiguity → stands d = true) ∧
        (ofMerged options merged).diagnostics = incoming.filter stands
          ++ Lookup.ruleReports merged.keys options.acrossModules merged.declarations := by
  intro merged
  constructor
  · exact Merged.declarations_resolve merged options fun d hd m hm =>
      @Merged.firsts_overloads mergeOptions ds d m hd hm
  · exact Merged.diagnostics_resolve merged options

end Overlay
