/-
Records in JSON.

A record is written as an object with a member for each field, or as an array of its fields in
order.  `Fields α` describes the fields of a record that yields an `α`; it is put together from
single fields with `<$>` and `<*>`, in their order:

    Site.mk <$> Fields.required "file" Decoder.string
      <*> Fields.required "ordinal" Decoder.word

`Fields.decode` reads the record in either form.  In an object the members may stand in any order
and are read in the order in which they stand; a field that comes twice is refused, a member with
another name is passed over, and at the end the first field that is missing and has no default is
reported.  In an array, fields with a default may be left off at the end.
-/
import Overlay.Json.Decoder

namespace Overlay

/-- What is left of an array: how many items were taken, the others, and what is behind them. -/
structure Cursor where
  taken : Nat
  left : List Draft
  ending : Option Fault

/-- The fields of a record that yields an `α`. -/
structure Fields (α : Type) where
  /-- The names of the fields in order. -/
  names : List String
  /-- What is known while members are read. -/
  State : Type
  start : State
  /-- Takes the member with one of the names. -/
  member : String → Origin → Draft → State → Except Failure State
  /-- The record, when there are no more members. -/
  finish : State → Except Failure α
  /-- The record from the items of an array; `short` says what is expected if there are too few. -/
  inOrder : Origin → (short : String) → StateT Cursor (Except Failure) α

namespace Fields

variable {α β : Type}

def nil (value : α) : Fields α where
  names := []
  State := Unit
  start := ()
  member _ _ _ state := .ok state
  finish _ := .ok value
  inOrder _ _ := pure value

/-- The fields of two records, one after the other. -/
def both (f : Fields (α → β)) (x : Fields α) : Fields β where
  names := f.names ++ x.names
  State := f.State × x.State
  start := (f.start, x.start)
  member name origin d state :=
    if name ∈ f.names then (f.member name origin d state.1).map fun s => (s, state.2)
    else (x.member name origin d state.2).map fun s => (state.1, s)
  finish state := do
    let g ← f.finish state.1
    let a ← x.finish state.2
    .ok (g a)
  inOrder origin short := do
    let g ← f.inOrder origin short
    let a ← x.inOrder origin short
    pure (g a)

instance : Applicative Fields where
  pure := nil
  seq f x := both f (x ())

/-- The next item of an array; `absent` is used at its end. -/
def next (decode : Decoder α) (absent : Nat → Except Failure α) (origin : Origin) :
    StateT Cursor (Except Failure) α := fun cursor =>
  match cursor.left, cursor.ending with
  | d :: left, _ => do
    let value ← decode origin d
    .ok (value, { cursor with taken := cursor.taken + 1, left })
  | [], some f => Decoder.stop f
  | [], none => do
    let value ← absent cursor.taken
    .ok (value, cursor)

/-- A field, with its value where it is absent. -/
def single (name : String) (decode : Decoder α) (default? : Option α) : Fields α where
  names := [name]
  State := Option α
  start := none
  member _ origin d
    | some _ => Decoder.refuse (.duplicateField name)
    | none => (decode origin d).map some
  finish state :=
    match state.or default? with
    | some value => .ok value
    | none => Decoder.refuse (.missingField name)
  inOrder origin short := next decode (fun taken =>
    match default? with
    | some value => .ok value
    | none => Decoder.refuse (.wrongLength taken short)) origin

def required (name : String) (decode : Decoder α) : Fields α :=
  single name decode none

def withDefault (name : String) (decode : Decoder α) (default : α) : Fields α :=
  single name decode (some default)

/-! ### Reading -/

/-- Takes the members of an object one after the other. -/
def members (fields : Fields α) (origin : Origin) :
    List (Label × Draft) → fields.State → Except Failure fields.State
  | [], state => .ok state
  | (.name name, value) :: more, state => do
    let state ←
      if name ∈ fields.names then fields.member name origin value state
      else (Decoder.proceed value.cut?).map fun _ => state
    fields.members origin more state
  | (.illegible f, _) :: _, _ => Decoder.stop f

/-- The record that an object or an array holds; `expected` names it in messages. -/
def decode (fields : Fields α) (expected : String) : Decoder α
  | origin, .object drafts ending => do
    let state ← fields.members origin drafts fields.start
    Decoder.proceed ending
    fields.finish state
  | origin, .array drafts ending => do
    let count := fields.names.length
    let short := expected ++ " with " ++ Mismatch.elements count
    let (value, cursor) ← (fields.inOrder origin short).run ⟨0, drafts, ending⟩
    Decoder.closeArray origin count cursor.left cursor.ending
    .ok value
  | _, d => Decoder.expect expected d

/-- The record, opened with the room that is left. -/
def record (name : String) (fields : Nat → Fields α) : Nat → Decoder α
  | 0 => fun _ => Decoder.tooDeep ("struct " ++ name)
  | room + 1 => (fields room).decode ("struct " ++ name)

end Fields

end Overlay
