/-
Looking names up across modules or not.

A name that neither its own scope nor the global one declares may be found in the body of a module,
if the options allow it; otherwise it is taken for `any`.  Without this, references become `any` and
nothing else changes.  So more overloads may become alike, more names are reported, and no call that
fits a signature is lost:

* `Lookup.rule?_across` — what is found without modules is found across them;
* `Overload.firsts_map_sublist` — where more overloads are alike, fewer are kept;
* `Declaration.narrows_ruled` — a declaration whose names are looked up in two ways;
* `Table.isSome_call?_iff` — which calls of a member in a table fit;
* `Table.narrows_acrossModules` — the tables that are built in the two ways.
-/
import Overlay.Proofs.Collapse
import Overlay.Proofs.Reports
import Overlay.Proofs.Ty.Weakening

open scoped List

namespace Overlay

/-! ### What may differ -/

/-- Of the sites of overloads in the first member, the second one has some, in the same order. -/
structure Member.Narrows (m m' : Member) : Prop where
  name : m'.name = m.name
  sites : m'.overloads.map Overload.site <+ m.overloads.map Overload.site

/-- The second declaration is the first one with the same or fewer overloads in each member. -/
structure Declaration.Narrows (d d' : Declaration) : Prop where
  key : d'.key = d.key
  isStub : d'.isStub = d.isStub
  sites : d'.sites = d.sites
  members : List.Forall₂ Member.Narrows d.members d'.members

/-- In the second table fewer names lead to declarations, so that overloads are missing and names
are reported, but any call that fits in the first table fits. -/
structure Table.Narrows (table table' : Table) : Prop where
  declarations : List.Forall₂ Declaration.Narrows table.declarations table'.declarations
  unknownTypes : Diagnostic.withKind .unknownType table.diagnostics
    <+ Diagnostic.withKind .unknownType table'.diagnostics
  calls : ∀ key name arguments, (table.call? key name arguments).isSome = true →
    (table'.call? key name arguments).isSome = true

/-! ### Lookup -/

namespace Lookup

variable {keys : List Key} {scope : Scope} {name : String}

/-- What is found without modules is found across them, and is the same. -/
theorem rule?_across {key : Key} (h : rule? keys false scope name = some key) :
    rule? keys true scope name = some key := by
  rw [rule?] at h ⊢
  split at h
  next hown => rwa [if_pos hown]
  next hown =>
    split at h
    next hglobal => rwa [if_neg hown, if_pos hglobal]
    next => exact absurd h (by simp)

/-- What is not found across modules is not found without them. -/
theorem rule?_eq_none_of_across (h : rule? keys true scope name = none) :
    rule? keys false scope name = none := by
  rw [Option.eq_none_iff_forall_ne_some] at h ⊢
  exact fun key hkey => h key (rule?_across hkey)

/-- Without modules a name stands for the same, or for `any`. -/
theorem weakens_ruleType (keys : List Key) (scope : Scope) (name : String) :
    (ruleType keys false scope name).Weakens (ruleType keys true scope name) := by
  cases hfound : rule? keys false scope name with
  | none =>
    rw [ruleType, hfound]
    exact .any _
  | some key =>
    rw [ruleType, ruleType, hfound, rule?_across hfound]
    exact .declared key

/-- Without modules more names stand for nothing. -/
theorem ruleReports_sublist (keys : List Key) (ds : List Declaration) :
    ruleReports keys true ds <+ ruleReports keys false ds := by
  rw [ruleReports, ruleReports]
  refine List.Sublist.flatMap_right _ fun d _ => List.Sublist.flatMap_right _ fun m _ =>
    List.Sublist.flatMap_right _ fun o _ => List.Sublist.map _ ?_
  refine List.monotone_filter_right _ fun name hname => ?_
  rw [decide_eq_true_iff] at hname ⊢
  exact rule?_eq_none_of_across hname

end Lookup

/-! ### Overloads -/

/-- Where more overloads are alike, fewer are kept, and none whose alike one was not kept before. -/
theorem Overload.firsts_map_sublist {f g : Overload → Overload} {os : List Overload}
    (hsite : ∀ o, (g o).site = (f o).site)
    (halike : ∀ a ∈ os, ∀ b ∈ os, (f a).signature.alike (f b).signature = true →
      (g a).signature.alike (g b).signature = true) :
    (firsts (os.map g)).map site <+ (firsts (os.map f)).map site := by
  induction os using List.reverseRecOn with
  | nil => exact .refl _
  | append_singleton os o ih =>
    have hkept := ih fun a ha b hb =>
      halike a (List.mem_append_left _ ha) b (List.mem_append_left _ hb)
    -- what collapses on the one side collapses on the other
    have hin : (f o).isIn (os.map f) = true → (g o).isIn (os.map g) = true := by
      intro hf
      obtain ⟨_, hother, hsame⟩ := (isIn_iff _ _).mp hf
      obtain ⟨other, hmem, rfl⟩ := List.mem_map.mp hother
      refine (isIn_iff _ _).mpr ⟨g other, List.mem_map_of_mem hmem, ?_⟩
      exact halike other (List.mem_append_left _ hmem) o
        (List.mem_append_right _ (List.mem_singleton_self o)) hsame
    rw [List.map_append, List.map_append, List.map_singleton, List.map_singleton, firsts_concat,
      firsts_concat]
    by_cases hf : (f o).isIn (os.map f)
    · rwa [if_pos hf, if_pos (hin hf)]
    · rw [if_neg hf, List.map_append]
      by_cases hg : (g o).isIn (os.map g)
      · rw [if_pos hg]
        exact hkept.trans (List.sublist_append_left _ _)
      · rw [if_neg hg, List.map_append, List.map_singleton, List.map_singleton, hsite]
        exact hkept.append_right _

/-! ### Declarations -/

theorem Declaration.isStub_ruled (rule : Scope → String → Ty) (d : Declaration) :
    (d.ruled rule).isStub = d.isStub := by
  obtain ⟨key, body, sites⟩ := d
  cases body with
  | stub => rfl
  | interface members => simp [isStub, ruled]

/-- Where the second rule finds no more names than the first one, a declaration without references
has fewer overloads by it. -/
theorem Declaration.narrows_ruled {rule rule' : Scope → String → Ty} {d : Declaration}
    (hd : d.Unlinked) (h : ∀ name, (rule d.key.scope name).unlink.replace (rule' d.key.scope)
      = rule' d.key.scope name) : (d.ruled rule).Narrows (d.ruled rule') where
  key := rfl
  isStub := by rw [isStub_ruled, isStub_ruled]
  sites := rfl
  members := by
    rw [members_ruled, members_ruled, List.forall₂_map_left_iff, List.forall₂_map_right_iff,
      List.forall₂_same]
    intro m hm
    refine ⟨rfl, Overload.firsts_map_sublist (fun _ => rfl) fun a ha b hb => ?_⟩
    exact Signature.alike_replace_of_alike_replace h (fun key hkey => hd key ⟨m, hm, a, ha, hkey⟩)
      fun key hkey => hd key ⟨m, hm, b, hb, hkey⟩

/-! ### Tables -/

namespace Table

/-- A call of a member fits if one of all its overloads accepts it. -/
theorem isSome_call?_iff (options : Options) (ds : List Declaration) (key : Key) (name : String)
    (arguments : List Ty) :
    ((ofRegistry options (.ofList ds)).call? key name arguments).isSome = true
      ↔ ∃ o ∈ Merge.overloadsNamed name ((Registry.ofList ds).wellFormed key),
        Signature.accepts (o.signature.replace (typeIn options (.ofList ds) key.scope)) arguments
          = true := by
  rw [call?_eq_find?, List.find?_isSome]
  simp only [List.mem_map, exists_exists_and_eq_and]

/-- The tables of any fragments, with names looked up across modules and without. -/
theorem narrows_acrossModules (options : Options) (fragments : List Fragment) :
    let registry := fragments.foldl Registry.addFragment .empty
    Narrows (ofRegistry { options with acrossModules := true } registry)
      (ofRegistry { options with acrossModules := false } registry) := by
  intro registry
  have hregistry : registry = .ofList (fragments.flatMap Fragment.declarations) :=
    Registry.foldl_addFragment fragments
  have hunlinked := Fragment.unlinked_flatMap_declarations fragments
  rw [hregistry]
  generalize fragments.flatMap Fragment.declarations = ds at hunlinked ⊢
  -- the declarations, the reports on unknown names, and the calls
  refine ⟨?_, ?_, fun key name arguments => ?_⟩
  · rw [declarations_ofRegistry, declarations_ofRegistry, List.forall₂_map_left_iff,
      List.forall₂_map_right_iff, List.forall₂_same]
    intro key _
    refine Declaration.narrows_ruled (Merge.unlinked_union fun d hd =>
      hunlinked d (Registry.mem_of_mem_wellFormed hd)) ?_
    exact Lookup.replace_unlink_ruleType fun name => Lookup.rule?_eq_none_of_across
  · rw [withKind_unknownType, withKind_unknownType]
    exact Lookup.ruleReports_sublist _ _
  · rw [isSome_call?_iff, isSome_call?_iff]
    rintro ⟨o, ho, haccepts⟩
    -- without the other modules, a name stands for the same as before or for `any`
    have hweakens := Signature.weakens_replace
      (Lookup.weakens_ruleType (Merged.ofRegistry options (.ofList ds)).keys key.scope) o.signature
    have harguments : List.Forall₂ Ty.Weakens arguments arguments :=
      List.forall₂_same.mpr fun argument _ => Ty.weakens_refl argument
    exact ⟨o, ho, Signature.accepts_of_weakens hweakens harguments haccepts⟩

/-- Two types of one module, and a global that has an overload for each: without modules, both are
taken for `any` and one overload is left. -/
example :
    let taking (type : String) : WrittenSignature := ⟨[.required "x" (some (.named type))], none⟩
    let fragment : Fragment := ⟨"index.d.ts",
      [.member "Reader" "read" (taking "string") (some "files"),
        .member "Writer" "write" (taking "string") (some "files"),
        .member "Store" "use" (taking "Reader") none, .member "Store" "use" (taking "Writer") none]⟩
    let sites (acrossModules : Bool) : List UInt32 :=
      let table := ofRegistry { Options.bare with acrossModules }
        (Registry.empty.addFragment fragment)
      (table.globals.flatMap Declaration.members).flatMap fun m =>
        m.overloads.map fun o => o.site.ordinal
    sites true = [2, 3] ∧ sites false = [2] := by
  decide +kernel

end Table

end Overlay
