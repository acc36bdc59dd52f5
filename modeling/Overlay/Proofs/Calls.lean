/-
Calls do not see what was left out.

Overloads are left out twice, when declarations are merged and when names in them have been looked
up.  Both times an alike one stays in front, and alike signatures accept the same calls.  So a call
of a member in a table finds the signature that it would find among all overloads that were
registered:

* `Signature.map_snd_choose?` — the signature that a call is given is the first to accept it;
* `Table.member?_ofRegistry` — which members a table has, and with which overloads;
* `Table.call?_eq_find?` — the signature that a call in a table is given;
* `Table.call?_ofRegistry` — a call in a table is one among all overloads.
-/
import Overlay.Proofs.Table

namespace Overlay

/-- The signature that a call of a member is given, if there are such a declaration and member. -/
def Table.call? (table : Table) (key : Key) (name : String) (arguments : List Ty) :
    Option Signature :=
  (table.get? key).bind fun d => (d.member? name).bind fun m => m.call? arguments

/-- All overloads of a member in the well-formed declarations of a key, with their names looked
up. -/
def Registry.everyOverload (options : Options) (registry : Registry) (key : Key) (name : String) :
    List Overload :=
  (Merge.overloadsNamed name (registry.wellFormed key)).map
    (Overload.resolve ((Merged.ofRegistry options registry).lookup options) key.scope)

/-! ### The first that accepts a call -/

theorem Signature.map_snd_choose? (signatures : List Signature) (arguments : List Ty) :
    (choose? signatures arguments).map Prod.snd
      = signatures.find? fun s => s.accepts arguments := by
  rw [choose?, Option.map_map]
  calc _ = (signatures.zipIdx.find? ((fun s => s.accepts arguments) ∘ Prod.fst)).map Prod.fst := rfl
    _ = (signatures.zipIdx.map Prod.fst).find? fun s => s.accepts arguments := List.find?_map.symm
    _ = _ := by rw [List.zipIdx_map_fst]

namespace Overload

/-- Leaving alike overloads out, before names are replaced and after, leaves the first one that
accepts a call in its place. -/
theorem find?_accepts_firsts (f : String → Ty) (os : List Overload) (arguments : List Ty) :
    (firsts ((firsts os).map fun o => ⟨o.signature.replace f, o.site⟩)).find?
        (fun o => o.signature.accepts arguments)
      = (os.map fun o => (⟨o.signature.replace f, o.site⟩ : Overload)).find?
          fun o => o.signature.accepts arguments := by
  rw [find?_firsts fun a b h => Signature.accepts_congr h arguments, List.find?_map, List.find?_map]
  congr 1
  -- alike overloads are still alike after names are replaced
  exact find?_firsts
    (fun a b h => Signature.accepts_congr (Signature.alike_replace f h) arguments) os

end Overload

/-! ### Members -/

namespace Merge

/-- A name belongs to a member if and only if there is an overload of that name. -/
theorem mem_memberNames_iff (name : String) (ds : List Declaration) :
    name ∈ memberNames ds ↔ overloadsNamed name ds ≠ [] := by
  rw [← eraseDups_map_fst_overloads, List.mem_eraseDups, ← named_flatMap_overloads, Ne,
    named_eq_nil_iff, not_not]

end Merge

theorem Declaration.members_ruled (rule : Scope → String → Ty) (d : Declaration) :
    (d.ruled rule).members = d.members.map fun m =>
      ⟨m.name, Overload.firsts (m.overloads.map fun o =>
        ⟨o.signature.replace (rule d.key.scope), o.site⟩)⟩ := by
  obtain ⟨key, body, sites⟩ := d
  cases body <;> rfl

namespace Table

variable (options : Options) (ds : List Declaration) (key : Key) (name : String)

/-- A declaration in a table has a member of each name of which there is an overload. -/
theorem member?_ofRegistry :
    (((ofRegistry options (.ofList ds)).get? key).bind fun d => d.member? name)
      = if Merge.overloadsNamed name ((Registry.ofList ds).wellFormed key) = [] then none
        else some ⟨name, Overload.firsts
          ((Overload.firsts (Merge.overloadsNamed name ((Registry.ofList ds).wellFormed key))).map
            fun o => ⟨o.signature.replace (typeIn options (.ofList ds) key.scope), o.site⟩)⟩ := by
  rw [get?_ofRegistry]
  by_cases hkey : (Registry.ofList ds).wellFormed key = []
  · -- without a well-formed declaration there is no overload
    rw [if_neg (not_not_intro hkey), hkey, Option.bind_none]
    rfl
  · rw [if_pos hkey, Option.bind_some, Declaration.member?, Declaration.members_ruled,
      Merge.members_union, List.map_map, Function.comp_def, find?_map_key fun _ => rfl]
    simp only [Merge.mem_memberNames_iff, ite_not]
    rfl

/-- A call in a table is given the first signature that accepts it, whether or not overloads that
say nothing new are left out. -/
theorem call?_eq_find? (arguments : List Ty) :
    (ofRegistry options (.ofList ds)).call? key name arguments
      = (((Merge.overloadsNamed name ((Registry.ofList ds).wellFormed key)).map fun o =>
          o.signature.replace (typeIn options (.ofList ds) key.scope)).find? fun s =>
            s.accepts arguments) := by
  rw [call?, ← Option.bind_assoc, member?_ofRegistry]
  by_cases hnone : Merge.overloadsNamed name ((Registry.ofList ds).wellFormed key) = []
  · rw [if_pos hnone, hnone]
    rfl
  · have hfirsts := Overload.find?_accepts_firsts (typeIn options (.ofList ds) key.scope)
      (Merge.overloadsNamed name ((Registry.ofList ds).wellFormed key)) arguments
    rw [if_neg hnone, Option.bind_some, Member.call?, Signature.map_snd_choose?, Member.signatures,
      List.find?_map]
    simp only [Function.comp_def]
    rw [hfirsts, List.find?_map, List.find?_map, Option.map_map]
    rfl

/-- A call in a table is given the signature that it is given among all overloads, those that say
nothing new included. -/
theorem call?_ofRegistry (arguments : List Ty) :
    (ofRegistry options (.ofList ds)).call? key name arguments
      = (Signature.choose?
          (((Registry.ofList ds).everyOverload options key name).map Overload.signature)
          arguments).map Prod.snd := by
  have hall : (Registry.ofList ds).everyOverload options key name
      = (Merge.overloadsNamed name ((Registry.ofList ds).wellFormed key)).map fun o =>
          ⟨o.signature.replace (typeIn options (.ofList ds) key.scope), o.site⟩ := by
    rw [Registry.everyOverload, Merged.lookup]
    exact List.map_congr_left fun o _ => Overload.resolve_eq _ _ _ o
  rw [call?_eq_find?, Signature.map_snd_choose?, hall, List.map_map]
  rfl

end Table

end Overlay
