/-
Records, read back.

The members of an object that stand in the order of the fields are taken one after the other, each
by its own field.  `Fields.Reads` says what comes of it, and is put together as fields are, with
`<$>` and `<*>`:

* `Fields.Reads.map`, `Fields.Reads.seq` — records put together from fields;
* `Fields.Reads.decode` — the record in an object;
* `Labelled.decode_draft` — the record in an object with its label in front;
* `Decoder.items_map` — the list in an array.
-/
import Overlay.Json.Labelled
import Overlay.Proofs.Json.Values

namespace Overlay

namespace Fields

variable {α β : Type} {origin : Origin}

/-- Each member has the name of a field. -/
def Knows (fields : Fields α) (drafts : List (Label × Draft)) : Prop :=
  ∀ d ∈ drafts, ∃ name ∈ fields.names, d.1 = .name name

/-- The fields know all members that are there, and make a record of them. -/
structure Reads (fields : Fields α) (origin : Origin) (drafts : List (Label × Draft)) (value : α) :
    Prop where
  known : fields.Knows drafts
  read : ∃ state, fields.members origin drafts fields.start = .ok state
    ∧ fields.finish state = .ok value

/-! ### Names -/

@[simp] theorem names_required (name : String) (decode : Decoder α) :
    (required name decode).names = [name] := rfl

@[simp] theorem names_withDefault (name : String) (decode : Decoder α) (default : α) :
    (withDefault name decode default).names = [name] := rfl

@[simp] theorem names_nil (value : α) : (nil value).names = [] := rfl

@[simp] theorem names_single (name : String) (decode : Decoder α) (default? : Option α) :
    (single name decode default?).names = [name] := rfl

@[simp] theorem names_seq (f : Fields (α → β)) (x : Fields α) :
    (f <*> x).names = f.names ++ x.names := rfl

/-! ### Members -/

/-- A member that the fields know is taken first. -/
theorem members_cons {fields : Fields α} {name : String} (hname : name ∈ fields.names) (d : Draft)
    (drafts : List (Label × Draft)) (state : fields.State) :
    fields.members origin ((.name name, d) :: drafts) state
      = (fields.member name origin d state).bind (fields.members origin drafts) := by
  rw [members, if_pos hname]
  rfl

/-- Members of both lists are taken one after the other. -/
theorem members_append {fields : Fields α} {drafts : List (Label × Draft)}
    (h : fields.Knows drafts) (drafts' : List (Label × Draft)) (state : fields.State) :
    fields.members origin (drafts ++ drafts') state
      = (fields.members origin drafts state).bind (fields.members origin drafts') := by
  induction drafts generalizing state with
  | nil => rfl
  | cons d drafts ih =>
    obtain ⟨label, value⟩ := d
    obtain ⟨name, hname, rfl⟩ := h (label, value) (List.mem_cons_self ..)
    rw [List.cons_append, members_cons hname, members_cons hname]
    cases fields.member name origin value state with
    | error e => rfl
    | ok state' => exact ih (fun d hd => h d (List.mem_cons_of_mem _ hd)) state'

variable (f : Fields (α → β)) (x : Fields α)

theorem Knows.both_left {f : Fields (α → β)} {drafts : List (Label × Draft)} (h : f.Knows drafts) :
    (both f x).Knows drafts := by
  intro d hd
  obtain ⟨name, hname, heq⟩ := h d hd
  exact ⟨name, List.mem_append_left _ hname, heq⟩

theorem Knows.both_right {x : Fields α} {drafts : List (Label × Draft)} (h : x.Knows drafts) :
    (both f x).Knows drafts := by
  intro d hd
  obtain ⟨name, hname, heq⟩ := h d hd
  exact ⟨name, List.mem_append_right _ hname, heq⟩

/-- Members that the first fields know leave the others alone. -/
theorem members_both_left {drafts : List (Label × Draft)}
    (h : f.Knows drafts) (s : f.State) (t : x.State) :
    (both f x).members origin drafts (s, t)
      = (f.members origin drafts s).map fun s' => (s', t) := by
  induction drafts generalizing s with
  | nil => rfl
  | cons d drafts ih =>
    obtain ⟨label, value⟩ := d
    obtain ⟨name, hname, rfl⟩ := h (label, value) (List.mem_cons_self ..)
    have hmember : (both f x).member name origin value (s, t)
        = (f.member name origin value s).map fun s' => (s', t) := if_pos hname
    refine (members_cons (List.mem_append_left _ hname) value drafts _).trans ?_
    rw [members_cons hname, hmember]
    cases f.member name origin value s with
    | error e => rfl
    | ok s' => exact ih (fun d hd => h d (List.mem_cons_of_mem _ hd)) s'

/-- Members that only the last fields know leave the others alone. -/
theorem members_both_right {drafts : List (Label × Draft)}
    (h : x.Knows drafts) (hnames : ∀ name ∈ x.names, name ∉ f.names) (s : f.State) (t : x.State) :
    (both f x).members origin drafts (s, t)
      = (x.members origin drafts t).map fun t' => (s, t') := by
  induction drafts generalizing t with
  | nil => rfl
  | cons d drafts ih =>
    obtain ⟨label, value⟩ := d
    obtain ⟨name, hname, rfl⟩ := h (label, value) (List.mem_cons_self ..)
    have hmember : (both f x).member name origin value (s, t)
        = (x.member name origin value t).map fun t' => (s, t') := if_neg (hnames name hname)
    refine (members_cons (List.mem_append_right _ hname) value drafts _).trans ?_
    rw [members_cons hname, hmember]
    cases x.member name origin value t with
    | error e => rfl
    | ok t' => exact ih (fun d hd => h d (List.mem_cons_of_mem _ hd)) t'

/-! ### Records -/

variable {f x} {drafts drafts' : List (Label × Draft)}

/-- A record without fields. -/
theorem reads_nil (value : α) : (nil value).Reads origin [] value where
  known := by simp [Knows]
  read := ⟨(), rfl, rfl⟩

/-- A field that is there. -/
theorem reads_single (name : String) {decode : Decoder α} (default? : Option α) {d : Draft}
    {value : α} (h : decode origin d = .ok value) :
    (single name decode default?).Reads origin [(.name name, d)] value where
  known := by simp [Knows, single]
  read := by
    have hmember : (single name decode default?).member name origin d none = .ok (some value) :=
      congrArg (Except.map some) h
    refine ⟨some value, (members_cons (List.mem_singleton_self name) d [] _).trans ?_, rfl⟩
    show Except.bind ((single name decode default?).member name origin d none) _ = _
    rw [hmember]
    rfl

/-- A field that is left off has its default. -/
theorem reads_absent (name : String) (decode : Decoder α) (default : α) :
    (withDefault name decode default).Reads origin [] default where
  known := by simp [Knows]
  read := ⟨none, rfl, rfl⟩

/-- The records of the parts are put together. -/
theorem Reads.seq {g : α → β} {a : α} (hf : f.Reads origin drafts g) (hx : x.Reads origin drafts' a)
    (hnames : ∀ name ∈ x.names, name ∉ f.names) :
    (f <*> x).Reads origin (drafts ++ drafts') (g a) where
  known := List.forall_mem_append.mpr ⟨hf.known.both_left x, hx.known.both_right f⟩
  read := by
    obtain ⟨s, hs, hg⟩ := hf.read
    obtain ⟨t, ht, ha⟩ := hx.read
    -- each part takes its own members and leaves the other part as it is
    have hleft : (both f x).members origin drafts (f.start, x.start) = .ok (s, x.start) := by
      rw [members_both_left f x hf.known, hs]
      rfl
    have hright : (both f x).members origin drafts' (s, x.start) = .ok (s, t) := by
      rw [members_both_right f x hx.known hnames, ht]
      rfl
    have hall : (both f x).members origin (drafts ++ drafts') (f.start, x.start) = .ok (s, t) := by
      refine (members_append (hf.known.both_left x) drafts' _).trans ?_
      rw [hleft]
      exact hright
    refine ⟨(s, t), hall, ?_⟩
    show (do let g ← f.finish s; let a ← x.finish t; Except.ok (g a)) = Except.ok (g a)
    rw [hg, ha]
    rfl

theorem Reads.required {g : α → β} (hf : f.Reads origin drafts g) (name : String)
    {decode : Decoder α} {d : Draft} {a : α} (h : decode origin d = .ok a)
    (hname : name ∉ f.names) :
    (f <*> required name decode).Reads origin (drafts ++ [(.name name, d)]) (g a) :=
  hf.seq (reads_single name none h) (by simpa using hname)

theorem Reads.withDefault {g : α → β} (hf : f.Reads origin drafts g) (name : String)
    {decode : Decoder α} (default : α) {d : Draft} {a : α} (h : decode origin d = .ok a)
    (hname : name ∉ f.names) :
    (f <*> withDefault name decode default).Reads origin (drafts ++ [(.name name, d)]) (g a) :=
  hf.seq (reads_single name (some default) h) (by simpa using hname)

/-- The record that is read from an object. -/
theorem Reads.decode {a : α} (h : x.Reads origin drafts a) (expected : String) :
    x.decode expected origin (.object drafts none) = .ok a := by
  obtain ⟨state, hmembers, hfinish⟩ := h.read
  rw [Fields.decode, hmembers]
  exact hfinish

end Fields

/-! ### Labels -/

namespace Labelled

variable {α : Type}

/-- Members behind the label are held as they are. -/
theorem members_held (t : Labelled α) (room : Nat) (kind : Decoder α)
    {drafts : List (Label × Draft)}
    (h : ∀ d ∈ drafts, ∃ name, name ≠ t.label ∧ d.1 = .name name ∧ d.2.flaw? room = none)
    (held : List (Label × Draft)) :
    t.members room drafts (some kind) held = .ok (some kind, held ++ drafts) := by
  induction drafts generalizing held with
  | nil => rw [members, List.append_nil]
  | cons d drafts ih =>
    obtain ⟨label, value⟩ := d
    obtain ⟨name, hname, rfl, hflaw⟩ := h (label, value) (List.mem_cons_self ..)
    have hvalue : value.flaw? room = none := hflaw
    rw [members, if_neg hname, hvalue]
    show t.members room drafts (some kind) (held ++ [(.name name, value)]) = _
    rw [ih (fun d hd => h d (List.mem_cons_of_mem _ hd)), List.append_assoc, List.singleton_append]

/-- An object with its label in front holds the record of that kind. -/
theorem decode_draft (t : Labelled α) (label : String) {kind : Decoder α}
    (hkind : Decoder.choose t.kinds label = .ok kind) {members : List (String × Json)}
    (hlabel : ∀ member ∈ members, member.1 ≠ t.label)
    (hreadable : ∀ member ∈ members, member.2.Readable) {room : Nat}
    (hroom : ∀ member ∈ members, member.2.nesting ≤ room) (origin : Origin) :
    t.decode room origin (Json.object ((t.label, .string label) :: members)).draft
      = kind .held (Json.object members).draft := by
  -- the label is found at once, and the members behind it are held back for its kind
  have hmembers : t.members room ((.name t.label, .string label) ::
        members.map fun member => (.name member.1, member.2.draft)) none []
      = .ok (some kind, members.map fun member => (.name member.1, member.2.draft)) := by
    rw [Labelled.members, if_pos rfl]
    show (t.kind (.string label) >>= fun kind => t.members room _ (some kind) []) = _
    rw [Labelled.kind, hkind]
    refine t.members_held room kind (List.forall_mem_map.mpr fun member hmember => ?_) []
    exact ⟨member.1, hlabel member hmember, rfl,
      (hreadable member hmember).flaw?_draft room (hroom member hmember)⟩
  rw [Json.draft_object, Json.draft_object, List.map_cons, Json.draft_string, decode, hmembers]
  rfl

end Labelled

/-! ### Plain values, lists and texts -/

namespace Decoder

theorem string_draft (origin : Origin) (text : String) :
    string origin (Json.string text).draft = .ok text := rfl

theorem boolean_draft (origin : Origin) (value : Bool) :
    boolean origin (Json.bool value).draft = .ok value := rfl

variable {α : Type} {decode : Decoder α} {origin : Origin}

/-- Something that is there, and not null. -/
theorem optional_some {d : Draft} {value : α} (hd : d ≠ .null) (h : decode origin d = .ok value) :
    optional decode origin d = .ok (some value) := by
  rw [optional, h]
  · rfl
  · exact hd

/-- What is written or null is read back. -/
theorem optional_draft {write : α → Json} {value? : Option α}
    (hnull : ∀ value ∈ value?, write value ≠ .null)
    (h : ∀ value ∈ value?, decode origin (write value).draft = .ok value) :
    optional decode origin (Json.optional (value?.map write)).draft = .ok value? := by
  cases value? with
  | none => rfl
  | some value => exact optional_some (Json.draft_ne_null (hnull value rfl)) (h value rfl)

/-- The list that is read from an array, if each item is. -/
theorem items_map {write : α → Draft} {values : List α}
    (h : ∀ value ∈ values, decode origin (write value) = .ok value) :
    items decode origin (.array (values.map write) none) = .ok values := by
  have hitems : (values.map write).mapM (decode origin) = .ok values := by
    induction values with
    | nil => rfl
    | cons value values ih =>
      rw [List.map_cons, List.mapM_cons, h value (List.mem_cons_self ..),
        ih fun v hv => h v (List.mem_cons_of_mem _ hv)]
      rfl
  rw [items, hitems]
  rfl

/-- The text of a value is read as what its draft is read as. -/
theorem ofText_of_draft {decode : Nat → Decoder α} {j : Json} {value : α}
    (hj : j.Readable) (h : decode depth .text j.draft = .ok value) :
    ofText decode j.render = .ok value := by
  rw [ofText, hj.ofText_render]
  show (do let value ← decode depth .text j.draft; _) = _
  rw [h]
  rfl

end Decoder

end Overlay
