/-
Registering more.

What is registered later comes behind what is there.  So merging more declarations leaves all that
was merged before in its place, and only puts something behind it: sites, members, overloads.  Keys
and reports may come in between, too: a key whose declarations were all malformed has its place
already, and what is reported is reported key by key.

* `Merge.grows_union` — what declarations say together, and what they say with further ones;
* `Declaration.Grows.call?` — a call is given the signature that it was given before;
* `Merged.grows_extend` — a merge of a registry, and one after more is registered.
-/
import Overlay.Proofs.Reports
import Overlay.Session

open scoped List

namespace Overlay

/-! ### What may come -/

/-- The second declaration begins with what the first one has: its sites, its members, and the
overloads of each of them.  A stub may have become an interface. -/
structure Declaration.Grows (d d' : Declaration) : Prop where
  isStub : d'.isStub = true → d.isStub = true
  sites : d.sites <+: d'.sites
  names : d.members.map Member.name <+: d'.members.map Member.name
  overloads : ∀ m ∈ d.members, ∀ m' ∈ d'.members, m.name = m'.name → m.overloads <+: m'.overloads

/-- The merged declaration of a key. -/
def Merged.get? (merged : Merged) (key : Key) : Option Declaration :=
  merged.declarations.find? fun d => d.key == key

/-- The signature that a call of a merged member is given, if there are such a declaration and
member. -/
def Merged.call? (merged : Merged) (key : Key) (name : String) (arguments : List Ty) :
    Option Signature :=
  (merged.get? key).bind fun d => (d.member? name).bind fun m => m.call? arguments

/-- The second merge has all that the first one has: in front where it belongs to a declaration, and
in the same order where others may come in between. -/
structure Merged.Grows (merged merged' : Merged) : Prop where
  keys : merged.keys <+ merged'.keys
  declarations : ∀ key d, merged.get? key = some d →
    ∃ d', merged'.get? key = some d' ∧ d.Grows d'
  diagnostics : merged.diagnostics <+ merged'.diagnostics
  calls : ∀ key name arguments s, merged.call? key name arguments = some s →
    merged'.call? key name arguments = some s

/-! ### Declarations -/

namespace Merge

theorem furtherReports_prefix (key : Key) (ps qs : List (String × Overload)) :
    furtherReports key ps <+: furtherReports key (ps ++ qs) := by
  refine prefix_append_of_concat (fun ps p => ?_) ps qs
  rw [furtherReports_concat]
  exact List.prefix_append ..

theorem malformedReports_append (key : Key) (ds es : List Declaration) :
    malformedReports key (ds ++ es) = malformedReports key ds ++ malformedReports key es :=
  List.flatMap_append

theorem overloadsNamed_append (name : String) (ds es : List Declaration) :
    overloadsNamed name (ds ++ es) = overloadsNamed name ds ++ overloadsNamed name es := by
  rw [overloadsNamed, List.flatMap_append, List.filter_append, List.flatMap_append]
  rfl

theorem memberNames_prefix (ds es : List Declaration) :
    memberNames ds <+: memberNames (ds ++ es) := by
  rw [memberNames, memberNames, List.flatMap_append, List.filter_append, List.map_append,
    List.eraseDups_append]
  exact List.prefix_append ..

/-- What declarations say together with further ones begins with what they say alone. -/
theorem grows_union (key : Key) (ds es : List Declaration) :
    (union key ds).Grows (union key (ds ++ es)) where
  isStub := by
    rw [isStub_union, isStub_union]
    exact fun h d hd => h d (List.mem_append_left es hd)
  sites := (List.prefix_append ds es).filterMap _
  names := by
    rw [names_union, names_union]
    exact memberNames_prefix ds es
  overloads := by
    intro m hm m' hm' hname
    rw [members_union, List.mem_map] at hm hm'
    obtain ⟨name, -, rfl⟩ := hm
    obtain ⟨name', -, rfl⟩ := hm'
    obtain rfl : name = name' := hname
    rw [overloadsNamed_append]
    exact Overload.firsts_prefix _ _

end Merge

/-! ### Calls -/

theorem Member.call?_of_prefix {m m' : Member} (h : m.overloads <+: m'.overloads)
    {arguments : List Ty} {s : Signature} (hcall : m.call? arguments = some s) :
    m'.call? arguments = some s := by
  rw [call?, Signature.map_snd_choose?] at hcall ⊢
  exact (h.map Overload.signature).find?_eq_some hcall

namespace Declaration

/-- A name of a member leads to a member of that name. -/
theorem member?_of_mem {d : Declaration} {name : String} (h : name ∈ d.members.map Member.name) :
    ∃ m ∈ d.members, m.name = name ∧ d.member? name = some m := by
  obtain ⟨m, hm, rfl⟩ := List.mem_map.mp h
  have hsome : (d.member? m.name).isSome := by
    rw [member?, List.find?_isSome]
    exact ⟨m, hm, beq_self_eq_true _⟩
  obtain ⟨found, hfound⟩ := Option.isSome_iff_exists.mp hsome
  exact ⟨found, List.mem_of_find?_eq_some hfound, eq_of_beq (List.find?_some hfound :), hfound⟩

/-- A call is given the signature that it was given before. -/
theorem Grows.call? {d d' : Declaration} (h : d.Grows d') {name : String} {arguments : List Ty}
    {s : Signature} (hcall : ((d.member? name).bind fun m => m.call? arguments) = some s) :
    ((d'.member? name).bind fun m => m.call? arguments) = some s := by
  obtain ⟨m, hm, hcall⟩ := Option.bind_eq_some_iff.mp hcall
  have hmem : m ∈ d.members := List.mem_of_find?_eq_some hm
  have hname : m.name = name := eq_of_beq (List.find?_some hm :)
  have hnames : name ∈ d'.members.map Member.name :=
    h.names.subset (hname ▸ List.mem_map_of_mem hmem)
  obtain ⟨m', hm', hname', hfound⟩ := member?_of_mem hnames
  rw [hfound, Option.bind_some]
  exact Member.call?_of_prefix (h.overloads m hmem m' hm' (hname.trans hname'.symm)) hcall

end Declaration

/-! ### Merges -/

namespace Merged

variable (options : Options) (ds es : List Declaration)

/-- What stands under a key: what its well-formed declarations say together. -/
theorem get?_ofRegistry (key : Key) : (ofRegistry options (.ofList ds)).get? key
    = if (Registry.ofList ds).wellFormed key ≠ [] then
        some (Merge.union key ((Registry.ofList ds).wellFormed key))
      else none := by
  rw [get?, declarations_eq_map_keys, find?_map_key fun _ => rfl]
  simp only [mem_keys_ofRegistry]

theorem keys_sublist : (ofRegistry options (.ofList ds)).keys
    <+ (ofRegistry options (.ofList (ds ++ es))).keys := by
  rw [keys_ofRegistry, keys_ofRegistry]
  have hmore : ∀ key, decide ((Registry.ofList ds).wellFormed key ≠ []) = true →
      decide ((Registry.ofList (ds ++ es)).wellFormed key ≠ []) = true := by
    intro key h
    rw [decide_eq_true_iff] at h ⊢
    exact Registry.wellFormed_append_ne_nil h es
  exact (List.monotone_filter_right _ hmore).trans ((Registry.keys_prefix ds es).sublist.filter _)

theorem exists_grows {key : Key} {d : Declaration}
    (h : (ofRegistry options (.ofList ds)).get? key = some d) :
    ∃ d', (ofRegistry options (.ofList (ds ++ es))).get? key = some d' ∧ d.Grows d' := by
  rw [get?_ofRegistry] at h
  obtain ⟨hsome, hd⟩ := Option.ite_none_right_eq_some.mp h
  obtain rfl := Option.some.inj hd
  rw [get?_ofRegistry, if_pos (Registry.wellFormed_append_ne_nil hsome es),
    Registry.wellFormed_append]
  exact ⟨_, rfl, Merge.grows_union key _ _⟩

theorem diagnostics_sublist : (ofRegistry options (.ofList ds)).diagnostics
    <+ (ofRegistry options (.ofList (ds ++ es))).diagnostics := by
  rw [diagnostics_ofRegistry, diagnostics_ofRegistry, reference, reference]
  -- first more is reported on each key, then on keys that are new
  refine .trans (List.Sublist.flatMap_right _ fun key _ => ?_)
    ((Registry.keys_prefix ds es).sublist.flatMap _)
  rw [Registry.sites_append, Registry.wellFormed_append, Merge.malformedReports_append,
    List.flatMap_append]
  refine .append (List.sublist_append_left _ _) ?_
  split
  · exact (Merge.furtherReports_prefix key _ _).sublist
  · exact .refl _

theorem grows_append : (ofRegistry options (.ofList ds)).Grows
    (ofRegistry options (.ofList (ds ++ es))) where
  keys := keys_sublist options ds es
  declarations := fun _ _ => exists_grows options ds es
  diagnostics := diagnostics_sublist options ds es
  calls := by
    intro key name arguments s hcall
    obtain ⟨d, hd, hcall⟩ := Option.bind_eq_some_iff.mp hcall
    obtain ⟨d', hd', hgrows⟩ := exists_grows options ds es hd
    rw [call?, hd', Option.bind_some]
    exact hgrows.call? hcall

end Merged

/-! ### Sessions -/

namespace Session

theorem registry_foldl_add (session : Session) (fragments : List Fragment) :
    (fragments.foldl add session).registry
      = fragments.foldl Registry.addFragment session.registry := by
  induction fragments using List.reverseRecOn with
  | nil => rfl
  | append_singleton fragments fragment ih =>
    rw [List.foldl_append, List.foldl_append, ← ih]
    rfl

/-- A session starts with the declarations of its libraries, and all further ones come behind
them. -/
theorem registry_of_start {options : Options} {session : Session} (h : start options = .ok session)
    (fragments : List Fragment) : ∃ libraries : List Fragment,
      session.registry = .ofList (libraries.flatMap Fragment.declarations) ∧
        (fragments.foldl add session).registry = .ofList
          (libraries.flatMap Fragment.declarations ++ fragments.flatMap Fragment.declarations) := by
  rw [start] at h
  cases hload : Library.load options.libraries with
  | error unknown =>
    rw [hload] at h
    exact absurd h nofun
  | ok libraries =>
    rw [hload] at h
    have hstart : session.registry = libraries.foldl Registry.addFragment .empty :=
      congrArg registry (Except.ok.inj h).symm
    refine ⟨libraries, hstart.trans (Registry.foldl_addFragment libraries), ?_⟩
    rw [registry_foldl_add, hstart, ← List.foldl_append, Registry.foldl_addFragment,
      List.flatMap_append]

end Session

/-- Merging only grows when more is registered: declarations with a registry, or fragments with a
session, in which the libraries then stay in front. -/
theorem Merged.grows_extend :
    (∀ (options : Options) (ds es : List Declaration), (ofRegistry options (.ofList ds)).Grows
      (ofRegistry options ((Registry.ofList ds).extend es))) ∧
    ∀ (options : Options) (session : Session) (fragments : List Fragment),
      Session.start options = .ok session →
        (ofRegistry options session.registry).Grows
          (ofRegistry options (fragments.foldl Session.add session).registry) := by
  refine ⟨fun options ds es => ?_, fun options session fragments h => ?_⟩
  · rw [Registry.extend_ofList]
    exact grows_append options ds es
  · obtain ⟨libraries, hsession, hmore⟩ := Session.registry_of_start h fragments
    rw [hsession, hmore]
    exact grows_append options _ _

/-- A file that declares `JSON.parse` for anything, and a global of its own. -/
def Fragment.anyParse : Fragment :=
  let parse : WrittenSignature := ⟨[.required "input" (some (.named "any"))], none⟩
  ⟨"user.d.ts", [.member "JSON" "parse" parse none, .member "Store" "read" parse none]⟩

/-- Beside the standard library, its signature of `JSON.parse` becomes an overload; a call that the
library's own signature accepts is still given that one. -/
theorem Merged.grows_anyParse : ∃ session, Session.start .standard = .ok session ∧
    let merged := ofRegistry .standard session.registry
    let merged' := ofRegistry .standard (session.add .anyParse).registry
    merged.Grows merged' ∧ merged.keys ≠ merged'.keys ∧
      merged'.call? (.ofGlobal "JSON") "parse" [.string]
        = some ⟨[.required "input" .string], .any⟩ := by
  refine ⟨_, rfl, ?_⟩
  intro merged merged'
  have hgrows : merged.Grows merged' := grows_extend.2 .standard _ [.anyParse] rfl
  refine ⟨hgrows, by decide +kernel, hgrows.calls _ _ _ _ ?_⟩
  decide +kernel

/-- A key whose first declaration is malformed has its place, so that it comes in between. -/
example :
    let text : Param Ty := ⟨"text", .string, true, false⟩
    let read (file : String) (params : List (Param Ty)) : Declaration :=
      .interface (.ofGlobal "Store") ⟨file, 0⟩ [.single "read" ⟨params, .any⟩ ⟨file, 0⟩]
    let ds := [read "a.d.ts" [text, .required "end" .string], .stub "files" ⟨"a.d.ts", 1⟩]
    let merged := Merged.ofRegistry .standard (.ofList ds)
    let merged' := Merged.ofRegistry .standard ((Registry.ofList ds).extend [read "b.d.ts" [text]])
    merged.keys = [.own "files"] ∧ merged'.keys = [.ofGlobal "Store", .own "files"] := by
  decide +kernel

end Overlay
