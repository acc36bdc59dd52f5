/-
Types and diagnostics, written and read back.

Each array and each object that is open takes one unit of the room, when a value is written as when
it is read, so a type is read back to the depth to which there is room for it.  A diagnostic is
written without its list of related sites where the list is empty, and the list is empty where it is
not written:

* `Scope.decode_draft`, `Key.decode_draft`, `Site.decode_draft` — the parts of both;
* `Ty.readsBack` — a type is read back;
* `Diagnostic.decode_draft` — so is a diagnostic;
* `Decoder.ofText_render_types` — and so are the texts of types and of lists of diagnostics.
-/
import Overlay.Proofs.Canonical
import Overlay.Proofs.Json.Tagged

namespace Overlay

/-! ### Keys and sites -/

theorem Scope.decode_draft (scope : Scope) {room : Nat} (origin : Origin)
    (hroom : scope.json.nesting ≤ room) : decode room origin scope.json.draft = .ok scope := by
  cases scope with
  | global =>
    obtain ⟨room, rfl, -⟩ := Json.exists_room_object hroom
    exact tagged.decode_constant room origin rfl
  | ambient name =>
    obtain ⟨room, rfl, -⟩ := Json.exists_room_object hroom
    exact tagged.decode_carried room origin rfl (by decide) rfl

theorem Key.decode_draft (key : Key) {room : Nat} (origin : Origin)
    (hroom : key.json.nesting ≤ room) : decode room origin key.json.draft = .ok key := by
  refine Fields.Reads.record "DeclKey" hroom fun inner hmembers => ?_
  simp only [List.forall_mem_cons] at hmembers
  have hscope := (Fields.reads_nil Key.mk).required "scope"
    (key.scope.decode_draft origin hmembers.1) (by simp)
  exact hscope.required "name" (Decoder.string_draft origin key.name) (by simp)

theorem Site.decode_draft (site : Site) {room : Nat} (origin : Origin)
    (hroom : site.json.nesting ≤ room) : decode room origin site.json.draft = .ok site := by
  refine Fields.Reads.record "DeclarationSite" hroom fun inner _ => ?_
  have hfile := (Fields.reads_nil Site.mk).required "file"
    (Decoder.string_draft origin site.file) (by simp)
  exact hfile.required "ordinal" (Decoder.word_draft origin site.ordinal) (by simp)

/-! ### Types -/

/-- A type is read back wherever there is room for it. -/
def Ty.ReadsBack (t : Ty) : Prop :=
  ∀ room origin, t.json.nesting ≤ room → decode room origin t.json.draft = .ok t

theorem Ty.decodeParam_draft {p : Param Ty} (h : p.type.ReadsBack) {room : Nat} (origin : Origin)
    (hroom : p.json.nesting ≤ room) : decodeParam room origin p.json.draft = .ok p := by
  obtain ⟨room, rfl, hmembers⟩ := Json.exists_room_object hroom
  simp only [List.forall_mem_cons] at hmembers
  have hname := (Fields.reads_nil (@Param.mk Ty)).required "name"
    (Decoder.string_draft origin p.name) (by simp)
  have htype := hname.required "ty" (h room origin hmembers.2.1) (by simp)
  have hoptional := htype.required "optional" (Decoder.boolean_draft origin p.optional) (by simp)
  have hall := hoptional.required "variadic" (Decoder.boolean_draft origin p.variadic) (by simp)
  rw [decodeParam, Param.json, Param.recordOf, Json.draft_object]
  exact hall.decode "struct Parameter"

theorem Ty.decodeParams_draft {ps : List (Param Ty)} (h : ∀ p ∈ ps, p.type.ReadsBack) {room : Nat}
    (origin : Origin) (hroom : (Json.array (ps.map Param.json)).nesting ≤ room) :
    decodeParams room origin (Json.array (ps.map Param.json)).draft = .ok ps := by
  obtain ⟨room, rfl, hitems⟩ := Json.exists_room_array hroom
  rw [decodeParams, Json.draft_array, List.map_map]
  exact Decoder.items_map fun p hp =>
    decodeParam_draft (h p hp) origin (hitems _ (List.mem_map_of_mem hp))

theorem Signature.json_eq (s : Signature) :
    s.json = Callable.recordOf (s.params.map Param.json) s.result.json := by
  rw [json, Ty.paramsJson_eq_map]

theorem Signature.decode_draft {s : Signature} (params : ∀ p ∈ s.params, p.type.ReadsBack)
    (result : s.result.ReadsBack) {room : Nat} (origin : Origin)
    (hroom : s.json.nesting ≤ room) : decode room origin s.json.draft = .ok s := by
  rw [json_eq, Callable.recordOf] at hroom ⊢
  obtain ⟨room, rfl, hmembers⟩ := Json.exists_room_object hroom
  simp only [List.forall_mem_cons] at hmembers
  have hparams := (Fields.reads_nil (@Callable.mk Ty)).required "parameters"
    (Ty.decodeParams_draft params origin hmembers.1) (by simp)
  have hall := hparams.required "return_type" (result room origin hmembers.2.1) (by simp)
  rw [decode, Json.draft_object]
  exact hall.decode "struct CallableSignature"

theorem Ty.content_ne_tag (signature : Decoder Signature) (key : Decoder Key) :
    (tagged signature key).content ≠ (tagged signature key).tag := by
  show "value" ≠ "kind"
  decide

theorem Ty.readsBack (t : Ty) : t.ReadsBack := by
  intro room origin hroom
  induction t using Ty.induction generalizing room origin with
  | any | string | void =>
    obtain ⟨room, rfl, -⟩ := Json.exists_room_object hroom
    exact (tagged _ _).decode_constant room origin rfl
  | function s params result =>
    rw [Signature.json_function] at hroom ⊢
    obtain ⟨room, rfl, hmembers⟩ := Json.exists_room_object hroom
    simp only [List.forall_mem_cons] at hmembers
    -- the content is not taken for the tag, and is read back with the room that is left
    refine (tagged _ _).decode_carried room origin rfl (content_ne_tag _ _) ?_
    rw [Signature.decode_draft (fun p hp room origin => params p hp room origin)
      (fun room origin => result room origin) origin hmembers.2.1]
    rfl
  -- a name is its own content
  | unresolved name =>
    obtain ⟨room, rfl, -⟩ := Json.exists_room_object hroom
    exact (tagged _ _).decode_carried room origin rfl (content_ne_tag _ _) rfl
  | declared key =>
    obtain ⟨room, rfl, hmembers⟩ := Json.exists_room_object hroom
    simp only [List.forall_mem_cons] at hmembers
    refine (tagged _ _).decode_carried room origin rfl (content_ne_tag _ _) ?_
    rw [key.decode_draft origin hmembers.2.1]
    rfl

/-! ### Diagnostics -/

namespace Diagnostic

theorem Kind.decode_draft (kind : Kind) (room : Nat) (origin : Origin) :
    decode room origin (Json.string kind.name).draft = .ok kind := by
  cases kind <;> exact Decoder.choice_name rfl room origin

end Diagnostic

theorem Severity.decode_draft (severity : Severity) (room : Nat) (origin : Origin) :
    decode room origin (Json.string severity.text).draft = .ok severity := by
  cases severity <;> exact Decoder.choice_name rfl room origin

namespace Diagnostic

theorem Related.decode_draft (r : Related) {room : Nat} (origin : Origin)
    (hroom : r.json.nesting ≤ room) : decode room origin r.json.draft = .ok r := by
  refine Fields.Reads.record "DiagnosticRelatedInformation" hroom fun inner hmembers => ?_
  simp only [List.forall_mem_cons] at hmembers
  have hsite := (Fields.reads_nil Related.mk).required "site"
    (r.site.decode_draft origin hmembers.1) (by simp)
  exact hsite.required "message_text" (Decoder.string_draft origin r.message) (by simp)

/-- What is written of the related sites of a diagnostic. -/
def relatedJson (related : List Related) : List (String × Json) :=
  if related.isEmpty then [] else [("related_information", .array (related.map Related.json))]

/-- Related sites are read back, whether they are written or not. -/
theorem reads_related (related : List Related) {room : Nat} {origin : Origin}
    (hroom : ∀ member ∈ relatedJson related, member.2.nesting ≤ room) :
    (Fields.withDefault "related_information" (Decoder.list Related.decode room) []).Reads origin
      ((relatedJson related).map fun member => (.name member.1, member.2.draft)) related := by
  cases related with
  | nil => exact Fields.reads_absent "related_information" _ []
  | cons r related =>
    refine Fields.reads_single "related_information" (some []) (Decoder.list_draft ?_ ?_)
    · exact hroom _ (List.mem_singleton_self _)
    · exact fun r _ _ hinner => r.decode_draft origin hinner

theorem decode_draft (d : Diagnostic) {room : Nat} (origin : Origin)
    (hroom : d.json.nesting ≤ room) : decode room origin d.json.draft = .ok d := by
  refine Fields.Reads.record "Diagnostic" hroom fun inner hmembers => ?_
  rw [List.forall_mem_append] at hmembers
  obtain ⟨hfront, hrelated⟩ := hmembers
  simp only [List.forall_mem_cons] at hfront
  have hkind := (Fields.reads_nil Diagnostic.mk).required "kind"
    (d.kind.decode_draft inner origin) (by simp)
  have hcode := hkind.required "code" (Decoder.word_draft origin d.code) (by simp)
  have hseverity := hcode.required "category" (d.severity.decode_draft inner origin) (by simp)
  have hsite := hseverity.required "site" (d.site.decode_draft origin hfront.2.2.2.1) (by simp)
  have hmessage := hsite.required "message_text" (Decoder.string_draft origin d.message) (by simp)
  rw [List.map_append]
  exact hmessage.seq (reads_related d.related hrelated) (by simp)

end Diagnostic

/-! ### Texts -/

/-- What is written is read back: a type, and a list of diagnostics, if no more than 127 arrays and
objects are open at once in their text. -/
theorem Decoder.ofText_render_types :
    (∀ t : Ty, t.json.nesting ≤ 127 → ofText Ty.decode t.json.render = .ok t)
    ∧ ∀ ds : List Diagnostic, (Json.array (ds.map Diagnostic.json)).nesting ≤ 127 →
      ofText (list Diagnostic.decode) (Json.array (ds.map Diagnostic.json)).render = .ok ds := by
  refine ⟨fun t h => ofText_of_draft t.readable_json (t.readsBack 127 .text h), fun ds h => ?_⟩
  refine ofText_of_draft ?_ (list_draft h fun d _ inner hinner => d.decode_draft .text hinner)
  simp [Diagnostic.readable_json]

/-- A type with functions in a function, and names that are to be escaped. -/
def Ty.listeners : Ty :=
  .function ⟨[⟨"on\t",
      .function ⟨[⟨"\"", .declared ⟨.ambient "événements", "T"⟩, true, false⟩], .void⟩,
      false, true⟩],
    .unresolved "\\"⟩

/-- A diagnostic whose severity is not that of its kind, with a related site, and one without. -/
def Diagnostic.handMade : List Diagnostic :=
  [⟨.unknownType, 4294967295, .suggestion, ⟨"a\n.d.ts", 7⟩, "", [⟨⟨"", 0⟩, "{0}"⟩]⟩,
    ⟨.overloadAmbiguity, 0, .warning, ⟨"", 0⟩, "é", []⟩]

/-- Eleven arrays and objects are open at once in the text of this type, and five in that of these
diagnostics. -/
theorem Decoder.ofText_render_types_listeners :
    Ty.listeners.json.nesting = 11 ∧
      ofText Ty.decode Ty.listeners.json.render = .ok Ty.listeners ∧
      (Json.array (Diagnostic.handMade.map Diagnostic.json)).nesting = 5 ∧
      ofText (list Diagnostic.decode) (Json.array (Diagnostic.handMade.map Diagnostic.json)).render
        = .ok Diagnostic.handMade := by
  have htype : Ty.listeners.json.nesting = 11 := by decide +kernel
  have hlist : (Json.array (Diagnostic.handMade.map Diagnostic.json)).nesting = 5 := by
    decide +kernel
  exact ⟨htype, ofText_render_types.1 _ (by rw [htype]; decide), hlist,
    ofText_render_types.2 _ (by rw [hlist]; decide)⟩

end Overlay
