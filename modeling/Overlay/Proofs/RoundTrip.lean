/-
Records and options, written and read back.

A written type stands in a record without a tag, and a record is read as a whole before its label
is known.  Each array and each object that is open takes one unit of the room, on both ways, so
what has room when it is written is read back as it was:

* `WrittenType.induction` — a property of all written types;
* `WrittenType.readsBack` — a written type is read back;
* `Record.decode_draft` — so is a record;
* `Fragment.ofText_render`, `Options.ofText_render` — and so are the texts of both;
* `Decoder.ofText_render_eq` — the two as one statement.
-/
import Overlay.Fragment.Json
import Overlay.Options.Json
import Overlay.Proofs.Json.Fields

namespace Overlay

/-! ### What is written of a type -/

mutual

/-- A property holds of all written types if it holds of names, and of a function whenever it holds
of the types that are written in it. -/
theorem WrittenType.induction {P : WrittenType → Prop} (named : ∀ text, P (.named text))
    (function : ∀ s : WrittenSignature, (∀ p ∈ s.params, ∀ a ∈ p.type, P a) →
      (∀ a ∈ s.result, P a) → P (.function s)) : ∀ a, P a
  | .named text => named text
  | .function ⟨ps, none⟩ =>
    function ⟨ps, none⟩ (WrittenType.induction_params named function ps) fun _ h => nomatch h
  | .function ⟨ps, some r⟩ =>
    function ⟨ps, some r⟩ (WrittenType.induction_params named function ps) fun
      | _, rfl => WrittenType.induction named function r
termination_by structural a => a

/-- The same for the types of parameters. -/
theorem WrittenType.induction_params {P : WrittenType → Prop} (named : ∀ text, P (.named text))
    (function : ∀ s : WrittenSignature, (∀ p ∈ s.params, ∀ a ∈ p.type, P a) →
      (∀ a ∈ s.result, P a) → P (.function s)) :
    ∀ ps : List (Param (Option WrittenType)), ∀ p ∈ ps, ∀ a ∈ p.type, P a
  | [], _, h => nomatch h
  | ⟨_, none, _, _⟩ :: _, _, .head _ => fun _ h => nomatch h
  | ⟨_, some a, _, _⟩ :: _, _, .head _ => fun
    | _, rfl => WrittenType.induction named function a
  | _ :: ps, p, .tail _ h => WrittenType.induction_params named function ps p h
termination_by structural ps => ps

end

/-- What is written of a parameter. -/
def Param.writtenJson (p : Param (Option WrittenType)) : Json :=
  Param.writtenRecordOf ⟨p.name, .optional (p.type.map WrittenType.json), p.optional, p.variadic⟩

theorem WrittenType.paramsJson_eq_map (ps : List (Param (Option WrittenType))) :
    paramsJson ps = ps.map Param.writtenJson := by
  induction ps with
  | nil => rfl
  | cons p ps ih =>
    obtain ⟨name, type, optional, variadic⟩ := p
    cases type <;> rw [paramsJson, ih] <;> rfl

theorem WrittenType.json_function (s : WrittenSignature) : (function s).json
    = recordOf (s.params.map Param.writtenJson) (.optional (s.result.map json)) := by
  obtain ⟨ps, r⟩ := s
  cases r <;> rw [json, paramsJson_eq_map] <;> rfl

theorem WrittenType.json_ne_null (a : WrittenType) : a.json ≠ .null := by
  cases a with
  | named text => simp [json]
  | function s => simp [json_function, recordOf]

theorem Param.readable_writtenJson {p : Param (Option WrittenType)}
    (h : ∀ a ∈ p.type, a.json.Readable) : p.writtenJson.Readable := by
  have htype : (Json.optional (p.type.map WrittenType.json)).Readable :=
    Json.readable_optional (by simpa using h)
  simp [writtenJson, writtenRecordOf, htype]

theorem WrittenType.readable_json (a : WrittenType) : a.json.Readable := by
  induction a using WrittenType.induction with
  | named text => simp [json]
  | function s params result =>
    have hresult : (Json.optional (s.result.map json)).Readable :=
      Json.readable_optional (by simpa using result)
    have hparams : ∀ p ∈ s.params, p.writtenJson.Readable :=
      fun p hp => p.readable_writtenJson (params p hp)
    simpa [json_function, recordOf, hresult] using hparams

/-! ### Types read back -/

/-- A written type is read back wherever there is room for it. -/
def WrittenType.ReadsBack (a : WrittenType) : Prop :=
  ∀ room origin, a.json.nesting ≤ room → decodeHeld room origin a.json.draft = .ok a

theorem WrittenType.optional_draft {type : Option WrittenType} (h : ∀ a ∈ type, a.ReadsBack)
    {room : Nat} (origin : Origin) (hroom : (Json.optional (type.map json)).nesting ≤ room) :
    Decoder.optional (decodeHeld room) origin (Json.optional (type.map json)).draft = .ok type := by
  refine Decoder.optional_draft (fun a _ => a.json_ne_null) fun a ha => h a ha room origin ?_
  rw [ha] at hroom
  exact hroom

theorem WrittenType.decodeParam_draft {p : Param (Option WrittenType)}
    (h : ∀ a ∈ p.type, a.ReadsBack) {room : Nat} (origin : Origin)
    (hroom : p.writtenJson.nesting ≤ room) :
    decodeParam room origin p.writtenJson.draft = .ok p := by
  obtain ⟨room, rfl, hmembers⟩ := Json.exists_room_object hroom
  simp only [List.forall_mem_cons] at hmembers
  obtain ⟨-, htype, -⟩ := hmembers
  -- one field after the other, in the order in which they are written
  have hname := (Fields.reads_nil (@Param.mk (Option WrittenType))).required "name"
    (Decoder.string_draft origin p.name) (by simp)
  have htyped := hname.withDefault "typeRef" none (optional_draft h origin htype) (by simp)
  have hoptional := htyped.withDefault "optional" false
    (Decoder.boolean_draft origin p.optional) (by simp)
  have hall := hoptional.withDefault "variadic" false
    (Decoder.boolean_draft origin p.variadic) (by simp)
  rw [decodeParam, Param.writtenJson, Param.writtenRecordOf, Json.draft_object]
  exact hall.decode "struct ParameterRecord"

theorem WrittenType.decodeParams_draft {ps : List (Param (Option WrittenType))}
    (h : ∀ p ∈ ps, ∀ a ∈ p.type, a.ReadsBack) {room : Nat} (origin : Origin)
    (hroom : (Json.array (ps.map Param.writtenJson)).nesting ≤ room) :
    decodeParams room origin (Json.array (ps.map Param.writtenJson)).draft = .ok ps := by
  obtain ⟨room, rfl, hitems⟩ := Json.exists_room_array hroom
  rw [decodeParams, Json.draft_array, List.map_map]
  refine Decoder.items_map fun p hp => decodeParam_draft (h p hp) origin (hitems _ ?_)
  exact List.mem_map_of_mem hp

theorem WrittenType.readsBack (a : WrittenType) : a.ReadsBack := by
  induction a using WrittenType.induction with
  | named text =>
    intro room origin _
    cases room <;> rfl
  | function s params result =>
    intro room origin hroom
    rw [json_function, recordOf] at hroom
    obtain ⟨room, rfl, hmembers⟩ := Json.exists_room_object hroom
    simp only [List.forall_mem_cons] at hmembers
    obtain ⟨hparams, hresult, -⟩ := hmembers
    -- both fields have defaults, which are not used here
    have hfirst := (Fields.reads_nil Callable.mk).withDefault "parameters" []
      (decodeParams_draft params .held hparams) (by simp)
    have hall := hfirst.withDefault "returnTypeRef" none (optional_draft result .held hresult)
      (by simp)
    -- an object can only be meant as a function, so that this is what is decoded
    have hdecode : (functionFields (decodeParams room) (decodeHeld room)).decode
        "struct FunctionTypeRef" .held (recordOf (s.params.map Param.writtenJson)
          (.optional (s.result.map json))).draft = .ok s := by
      rw [recordOf, Json.draft_object]
      exact hall.decode "struct FunctionTypeRef"
    rw [json_function]
    rw [recordOf, Json.draft_object] at hdecode ⊢
    simp only [decodeHeld, hdecode]

/-! ### Records read back -/

namespace Record

/-- What is written of the module of a record. -/
theorem reads_home (home? : Option String) :
    (Fields.withDefault "module" (Decoder.optional Decoder.string) none).Reads .held
      (home?.toList.map fun name => (.name "module", .string name)) home? := by
  cases home? with
  | none => exact Fields.reads_absent "module" _ none
  | some name =>
    exact Fields.reads_single "module" (some none)
      (Decoder.optional_some (by simp) (Decoder.string_draft .held name))

/-- What is written behind the label of a record of a member. -/
def memberJson (interfaceName memberName : String) (signature : WrittenSignature)
    (home? : Option String) : List (String × Json) :=
  [("interfaceName", .string interfaceName), ("memberName", .string memberName),
    ("parameters", .array (signature.params.map Param.writtenJson)),
    ("returnTypeRef", .optional (signature.result.map WrittenType.json))] ++
  home?.toList.map fun name => ("module", .string name)

theorem json_member (interfaceName memberName : String) (signature : WrittenSignature)
    (home? : Option String) : (member interfaceName memberName signature home?).json
      = .object (("kind", .string "interfaceMember")
        :: memberJson interfaceName memberName signature home?) := by
  rw [json, WrittenType.paramsJson_eq_map]
  rfl

theorem readable_memberJson (interfaceName memberName : String) (signature : WrittenSignature)
    (home? : Option String) :
    ∀ m ∈ memberJson interfaceName memberName signature home?, m.2.Readable := by
  have hparams : ∀ p ∈ signature.params, p.writtenJson.Readable :=
    fun p _ => p.readable_writtenJson fun a _ => a.readable_json
  have hresult : (Json.optional (signature.result.map WrittenType.json)).Readable :=
    Json.readable_optional (by simpa using fun a _ => a.readable_json)
  refine List.forall_mem_append.mpr ⟨?_, List.forall_mem_map.mpr fun name _ => .string name⟩
  simpa [hresult] using hparams

theorem readable_json (record : Record) : record.json.Readable := by
  cases record with
  | stub name => simp [json]
  | member interfaceName memberName signature home? =>
    rw [json_member, Json.readable_object_iff, List.forall_mem_cons]
    exact ⟨.string _, readable_memberJson interfaceName memberName signature home?⟩

/-- The fields of a record of a member, in the order in which they are written. -/
theorem reads_member (interfaceName memberName : String) (signature : WrittenSignature)
    (home? : Option String) {room : Nat}
    (hroom : ∀ m ∈ memberJson interfaceName memberName signature home?, m.2.nesting ≤ room) :
    (memberFields room).Reads .held ((memberJson interfaceName memberName signature home?).map
      fun m => (.name m.1, m.2.draft)) (member interfaceName memberName signature home?) := by
  -- the two annotated parts are within the room that the record leaves
  have hparams : (Json.array (signature.params.map Param.writtenJson)).nesting ≤ room :=
    hroom ("parameters", _) (by simp [memberJson])
  have hresult : (Json.optional (signature.result.map WrittenType.json)).nesting ≤ room :=
    hroom ("returnTypeRef", .optional (signature.result.map WrittenType.json))
      (by simp [memberJson])
  have hinterface := (Fields.reads_nil fun interfaceName memberName params result home? =>
      Record.member interfaceName memberName ⟨params, result⟩ home?).required "interfaceName"
    (Decoder.string_draft .held interfaceName) (by simp)
  have hmember := hinterface.required "memberName" (Decoder.string_draft .held memberName) (by simp)
  have htaking := hmember.withDefault "parameters" []
    (WrittenType.decodeParams_draft (fun _ _ a _ => a.readsBack) .held hparams) (by simp)
  have hgiving := htaking.withDefault "returnTypeRef" none
    (WrittenType.optional_draft (fun a _ => a.readsBack) .held hresult) (by simp)
  -- the module comes last, if there is one
  have hall := hgiving.seq (reads_home home?) (by simp)
  rw [memberJson, List.map_append, List.map_map]
  exact hall

theorem decode_draft (record : Record) {room : Nat} (hroom : record.json.nesting ≤ room)
    (origin : Origin) : decode room origin record.json.draft = .ok record := by
  cases record with
  | stub name =>
    obtain ⟨room, rfl, -⟩ := Json.exists_room_object hroom
    -- behind its label, the record of a module has one field
    have hname := (Fields.reads_nil Record.stub).required "moduleName"
      (Decoder.string_draft .held name) (by simp)
    rw [decode]
    refine ((labelled room).decode_draft "moduleStub" rfl ?_ ?_ ?_ origin).trans ?_
    · simp [labelled]
    · simp
    · simp [Json.nesting]
    · exact hname.decode _
  | member interfaceName memberName signature home? =>
    rw [json_member] at hroom ⊢
    obtain ⟨room, rfl, hmembers⟩ := Json.exists_room_object hroom
    -- the label takes no part of the room of the fields
    have hheld := (List.forall_mem_cons.mp hmembers).2
    rw [decode]
    refine ((labelled room).decode_draft "interfaceMember" rfl ?_
      (readable_memberJson interfaceName memberName signature home?) hheld origin).trans ?_
    · simp [labelled, memberJson]
    · rw [Json.draft_object]
      exact (reads_member interfaceName memberName signature home? hheld).decode _

end Record

/-! ### Whole texts -/

theorem Fragment.ofText_render (file : String) {records : List Record}
    (h : (Json.array (records.map Record.json)).nesting ≤ Decoder.depth) :
    ofText file (Json.array (records.map Record.json)).render = .ok ⟨file, records⟩ := by
  obtain ⟨room, hdepth, hroom⟩ := Json.exists_room_array h
  have hreadable : (Json.array (records.map Record.json)).Readable := by
    simp [Record.readable_json]
  have hlist : Decoder.list Record.decode Decoder.depth .text
      (Json.array (records.map Record.json)).draft = .ok records := by
    rw [hdepth, Json.draft_array, List.map_map]
    refine Decoder.items_map fun record hrecord => record.decode_draft (hroom _ ?_) .text
    exact List.mem_map_of_mem hrecord
  rw [ofText, Decoder.ofText_of_draft hreadable hlist]
  rfl

theorem Options.readable_json (options : Options) : options.json.Readable := by
  simp [json, Json.strings]

/-- Options take two units of the room, one for the record and one for the list in it. -/
theorem Options.decode_draft (options : Options) (room : Nat) (origin : Origin) :
    decode (room + 2) origin options.json.draft = .ok options := by
  have hlibraries : Decoder.list (fun _ => Decoder.string) (room + 1) origin
      (Json.strings options.libraries).draft = .ok options.libraries := by
    rw [Json.strings, Json.draft_array, List.map_map]
    exact Decoder.items_map fun library _ => Decoder.string_draft origin library
  have hreport := (Fields.reads_nil Options.mk).withDefault "reportOverloadAmbiguity"
    standard.reportOverloads (Decoder.boolean_draft origin options.reportOverloads) (by simp)
  have hacross := hreport.withDefault "resolveAcrossModules" standard.acrossModules
    (Decoder.boolean_draft origin options.acrossModules) (by simp)
  have hall := hacross.withDefault "libs" standard.libraries hlibraries (by simp)
  rw [json, Json.draft_object]
  exact hall.decode "struct MergeOptions"

theorem Options.ofText_render (options : Options) : ofText options.json.render = .ok options :=
  Decoder.ofText_of_draft options.readable_json (options.decode_draft 125 .text)

/-- What is written is read back: the records of a file, if no more than 127 arrays and objects are
open at once in their text, and options. -/
theorem Decoder.ofText_render_eq :
    (∀ (file : String) (records : List Record),
      (Json.array (records.map Record.json)).nesting ≤ 127 →
      Fragment.ofText file (Json.array (records.map Record.json)).render = .ok ⟨file, records⟩)
    ∧ ∀ options : Options, Options.ofText options.json.render = .ok options :=
  ⟨fun file _ h => Fragment.ofText_render file h, Options.ofText_render⟩

/-- Records with quotes and controls in their names, and with a function for a parameter. -/
def Record.events : List Record :=
  [.stub "event \"bus\"\n", .member "Emitter" "on"
    ⟨[⟨"listener", some (.function ⟨[⟨"é\t", none, true, false⟩], none⟩), false, false⟩,
      ⟨"rest", some (.named "Emitter[]"), false, true⟩], some (.named "Emitter")⟩
    (some "événements")]

/-- Seven arrays and objects are open at once in the text of these records. -/
theorem Decoder.ofText_render_events :
    (Json.array (Record.events.map Record.json)).nesting = 7
    ∧ Fragment.ofText "events" (Json.array (Record.events.map Record.json)).render
      = .ok ⟨"events", Record.events⟩ := by
  have hnesting : (Json.array (Record.events.map Record.json)).nesting = 7 := by decide
  exact ⟨hnesting, Decoder.ofText_render_eq.1 "events" Record.events (by rw [hnesting]; decide)⟩

end Overlay
