/-
The canonical text of a table.

Nothing of a table is lost in its text: the text tells the JSON value that it was made of, and the
value tells the table, down to the names of parameters.  The indexes of a table are not written, but
they are made of what is:

* `Ty.json_injective` — a type can be told from what is written of it;
* `Declaration.json_injective`, `Diagnostic.json_injective` — so can a declaration and a diagnostic;
* `Table.eq_of_canonical_eq` — tables with the same text are the same;
* `Table.canonical_eq_iff` — so are their declarations, views, diagnostics and answers.
-/
import Mathlib.Data.List.Basic
import Overlay.Proofs.Json.Values
import Overlay.Table.Json

namespace Overlay

open Function (Injective)

/-! ### Types -/

theorem Scope.readable_json (scope : Scope) : scope.json.Readable := by
  cases scope <;> simp [json]

theorem Scope.json_injective : Injective Scope.json := by
  intro scope scope' h
  cases scope <;> cases scope' <;> simp_all [json]

theorem Key.readable_json (key : Key) : key.json.Readable := by
  simp [json, key.scope.readable_json]

theorem Key.json_injective : Injective Key.json := by
  intro ⟨scope, name⟩ ⟨scope', name'⟩ h
  simp only [json, Json.object.injEq, List.cons.injEq, Prod.mk.injEq, Json.string.injEq, true_and,
    and_true] at h
  obtain ⟨hscope, hname⟩ := h
  rw [Scope.json_injective hscope, hname]

/-- What is written of a parameter. -/
def Param.json (p : Param Ty) : Json :=
  Param.recordOf ⟨p.name, p.type.json, p.optional, p.variadic⟩

theorem Ty.paramsJson_eq_map (ps : List (Param Ty)) : Ty.paramsJson ps = ps.map Param.json := by
  induction ps with
  | nil => rfl
  | cons p ps ih => rw [paramsJson, ih]; rfl

theorem Ty.readable_json (t : Ty) : t.json.Readable := by
  induction t using Ty.induction with
  | function s params result =>
    obtain ⟨ps, r⟩ := s
    have hps : ∀ p ∈ ps, (Param.json p).Readable := by
      intro p hp
      simp [Param.json, Param.recordOf, params p hp]
    simpa [json, Callable.recordOf, paramsJson_eq_map, result] using hps
  | any | string | void => simp [json]
  | unresolved name => simp [json]
  | declared key => simp [json, key.readable_json]

theorem Ty.json_injective : Injective Ty.json := by
  intro s
  induction s using Ty.induction with
  | function s params result =>
    intro t h
    obtain ⟨ps, r⟩ := s
    cases t with
    | function t =>
      obtain ⟨qs, q⟩ := t
      simp only [json, Callable.recordOf, paramsJson_eq_map, Json.object.injEq, List.cons.injEq,
        Prod.mk.injEq, Json.array.injEq, true_and, and_true] at h
      obtain ⟨hparams, hresult⟩ := h
      have hr : r = q := result hresult
      -- parameters are told apart one by one, each by its fields
      have hps : ps = qs := by
        refine eq_of_map_eq (fun p hp q hpq => ?_) hparams
        obtain ⟨name, t, optional, variadic⟩ := p
        obtain ⟨name', t', optional', variadic'⟩ := q
        simp only [Param.json, Param.recordOf, Json.object.injEq, List.cons.injEq, Prod.mk.injEq,
          Json.string.injEq, Json.bool.injEq, true_and, and_true] at hpq
        obtain ⟨hname, htype, hoptional, hvariadic⟩ := hpq
        have ht : t = t' := params _ hp htype
        rw [hname, ht, hoptional, hvariadic]
      rw [hr, hps]
    | _ => simp [json] at h
  -- each kind has its own word
  | any | string | void => intro t h; cases t <;> simp_all [json]
  | unresolved name => intro t h; cases t <;> simp_all [json]
  | declared key =>
    intro t h
    cases t with
    | declared key' =>
      simp only [json, Json.object.injEq, List.cons.injEq, Prod.mk.injEq, true_and, and_true] at h
      rw [Key.json_injective h]
    | _ => simp [json] at h

/-- A signature is written as what a function type holds. -/
theorem Signature.json_function (s : Signature) :
    (Ty.function s).json = .object [("kind", .string "function"), ("value", s.json)] := by
  obtain ⟨ps, r⟩ := s
  rfl

theorem Signature.readable_json (s : Signature) : s.json.Readable := by
  have h := (Ty.function s).readable_json
  rw [json_function] at h
  simpa using h

theorem Signature.json_injective : Injective Signature.json := by
  intro s s' h
  have hfunction : (Ty.function s).json = (Ty.function s').json := by
    rw [json_function, json_function, h]
  exact Ty.function.inj (Ty.json_injective hfunction)

/-! ### Declarations -/

theorem Site.readable_json (site : Site) : site.json.Readable := by
  simp [json]

theorem Site.json_injective : Injective Site.json := by
  intro ⟨file, ordinal⟩ ⟨file', ordinal'⟩ h
  simp only [json, Json.object.injEq, List.cons.injEq, Prod.mk.injEq, Json.string.injEq,
    Json.number.injEq, true_and, and_true] at h
  obtain ⟨hfile, hordinal⟩ := h
  rw [hfile, UInt32.toNat_inj.mp hordinal]

theorem Overload.readable_json (o : Overload) : o.json.Readable := by
  simp [json, o.signature.readable_json, o.site.readable_json]

theorem Overload.json_injective : Injective Overload.json := by
  intro ⟨signature, site⟩ ⟨signature', site'⟩ h
  simp only [json, Json.object.injEq, List.cons.injEq, Prod.mk.injEq, true_and, and_true] at h
  obtain ⟨hsignature, hsite⟩ := h
  rw [Signature.json_injective hsignature, Site.json_injective hsite]

theorem Member.readable_json (m : Member) : m.json.Readable := by
  simp [json, Overload.readable_json]

theorem Member.json_injective : Injective Member.json := by
  intro ⟨name, overloads⟩ ⟨name', overloads'⟩ h
  simp only [json, Json.object.injEq, List.cons.injEq, Prod.mk.injEq, Json.string.injEq,
    Json.array.injEq, true_and, and_true] at h
  obtain ⟨hname, hoverloads⟩ := h
  rw [hname, List.map_injective_iff.mpr Overload.json_injective hoverloads]

theorem Body.readable_json (body : Body) : body.json.Readable := by
  cases body <;> simp [json, Member.readable_json]

theorem Body.json_injective : Injective Body.json := by
  intro body body' h
  cases body with
  | stub => cases body' <;> simp_all [json]
  | interface members =>
    cases body' with
    | stub => simp [json] at h
    | interface members' =>
      simp only [json, Json.object.injEq, List.cons.injEq, Prod.mk.injEq, Json.array.injEq,
        true_and, and_true] at h
      rw [List.map_injective_iff.mpr Member.json_injective h]

theorem Declaration.readable_json (d : Declaration) : d.json.Readable := by
  simp [json, d.key.scope.readable_json, d.body.readable_json, Site.readable_json]

theorem Declaration.json_injective : Injective Declaration.json := by
  intro ⟨⟨scope, name⟩, body, sites⟩ ⟨⟨scope', name'⟩, body', sites'⟩ h
  simp only [json, Json.object.injEq, List.cons.injEq, Prod.mk.injEq, Json.string.injEq,
    Json.array.injEq, true_and, and_true] at h
  obtain ⟨hname, hscope, hbody, hsites⟩ := h
  rw [hname, Scope.json_injective hscope, Body.json_injective hbody,
    List.map_injective_iff.mpr Site.json_injective hsites]

/-! ### Diagnostics -/

theorem Severity.text_injective : Injective Severity.text := by
  intro severity severity' h
  cases severity <;> cases severity' <;> simp_all [text]

namespace Diagnostic

theorem Kind.name_injective : Injective Kind.name := by
  intro kind kind' h
  cases kind <;> cases kind' <;> simp_all [name]

theorem Related.readable_json (r : Related) : r.json.Readable := by
  simp [json, r.site.readable_json]

theorem Related.json_injective : Injective Related.json := by
  intro ⟨site, message⟩ ⟨site', message'⟩ h
  simp only [json, Json.object.injEq, List.cons.injEq, Prod.mk.injEq, Json.string.injEq, true_and,
    and_true] at h
  obtain ⟨hsite, hmessage⟩ := h
  rw [Site.json_injective hsite, hmessage]

theorem readable_json (d : Diagnostic) : d.json.Readable := by
  rw [json, Json.readable_object_iff, List.forall_mem_append]
  refine ⟨by simp [d.site.readable_json], ?_⟩
  split
  · simp
  · simp [Related.readable_json]

theorem json_injective : Injective Diagnostic.json := by
  intro ⟨kind, code, severity, site, message, related⟩
    ⟨kind', code', severity', site', message', related'⟩ h
  simp only [json, Json.object.injEq, List.cons_append, List.nil_append, List.cons.injEq,
    Prod.mk.injEq, Json.string.injEq, Json.number.injEq, true_and] at h
  obtain ⟨hkind, hcode, hseverity, hsite, hmessage, hrelated⟩ := h
  have hlists : related = related' := by
    -- no list is written where it is empty
    cases related with
    | nil => cases related' <;> simp_all
    | cons r related =>
      cases related' with
      | nil => simp at hrelated
      | cons r' related' =>
        simp only [List.isEmpty_cons, Bool.false_eq_true, if_false, List.cons.injEq, Prod.mk.injEq,
          Json.array.injEq, true_and, and_true] at hrelated
        exact List.map_injective_iff.mpr Related.json_injective hrelated
  rw [Kind.name_injective hkind, UInt32.toNat_inj.mp hcode, Severity.text_injective hseverity,
    Site.json_injective hsite, hmessage, hlists]

end Diagnostic

/-! ### Tables -/

theorem ModuleView.readable_json (view : ModuleView) : view.json.Readable := by
  simp [json, Declaration.readable_json]

theorem ModuleView.json_injective : Injective ModuleView.json := by
  intro ⟨name, declarations⟩ ⟨name', declarations'⟩ h
  simp only [json, Json.object.injEq, List.cons.injEq, Prod.mk.injEq, Json.string.injEq,
    Json.array.injEq, true_and, and_true] at h
  obtain ⟨hname, hdeclarations⟩ := h
  rw [hname, List.map_injective_iff.mpr Declaration.json_injective hdeclarations]

namespace Table

theorem readable_json (table : Table) : table.json.Readable := by
  simp [json, Declaration.readable_json, ModuleView.readable_json, Diagnostic.readable_json]

/-- What is written of a table tells its lists. -/
theorem lists_eq_of_json_eq {table table' : Table} (h : table.json = table'.json) :
    table.declarations = table'.declarations ∧ table.modules = table'.modules
      ∧ table.diagnostics = table'.diagnostics := by
  simp only [json, Json.object.injEq, List.cons.injEq, Prod.mk.injEq, Json.array.injEq, true_and,
    and_true] at h
  obtain ⟨hdeclarations, hmodules, hdiagnostics⟩ := h
  exact ⟨List.map_injective_iff.mpr Declaration.json_injective hdeclarations,
    List.map_injective_iff.mpr ModuleView.json_injective hmodules,
    List.map_injective_iff.mpr Diagnostic.json_injective hdiagnostics⟩

/-- Tables that are made of declarations and have the same text are the same: their indexes are
made of what is written. -/
theorem eq_of_canonical_eq {ds ds' : List Declaration} {diagnostics diagnostics' : List Diagnostic}
    (h : (ofDeclarations ds diagnostics).canonical = (ofDeclarations ds' diagnostics').canonical) :
    ofDeclarations ds diagnostics = ofDeclarations ds' diagnostics' := by
  have hjson : (ofDeclarations ds diagnostics).json = (ofDeclarations ds' diagnostics').json :=
    (readable_json _).eq_of_render_eq (readable_json _) h
  obtain ⟨hdeclarations, -, hdiagnostics⟩ := lists_eq_of_json_eq hjson
  have hds : ds = ds' := hdeclarations
  have hlog : diagnostics = diagnostics' := hdiagnostics
  rw [hds, hlog]

/-- The text of a table that is built loses nothing: two tables have the same text if and only if
they have the same declarations, views and diagnostics; and then they answer alike whatever is
looked up, by its key, by its type or by the name of a module. -/
theorem canonical_eq_iff (options options' : Options) (registry registry' : Registry) :
    (ofRegistry options registry).canonical = (ofRegistry options' registry').canonical ↔
      (ofRegistry options registry).declarations = (ofRegistry options' registry').declarations
      ∧ (ofRegistry options registry).modules = (ofRegistry options' registry').modules
      ∧ (ofRegistry options registry).diagnostics = (ofRegistry options' registry').diagnostics
      ∧ (∀ key, (ofRegistry options registry).get? key
          = (ofRegistry options' registry').get? key)
      ∧ (∀ t, (ofRegistry options registry).referent? t
          = (ofRegistry options' registry').referent? t)
      ∧ ∀ name, (ofRegistry options registry).module? name
          = (ofRegistry options' registry').module? name := by
  constructor
  · intro h
    have htables : ofRegistry options registry = ofRegistry options' registry' :=
      eq_of_canonical_eq h
    rw [htables]
    exact ⟨rfl, rfl, rfl, fun _ => rfl, fun _ => rfl, fun _ => rfl⟩
  · -- the text is made of these three lists
    rintro ⟨hdeclarations, hmodules, hdiagnostics, -⟩
    rw [canonical, canonical, json, json, hdeclarations, hmodules, hdiagnostics]

end Table

end Overlay
