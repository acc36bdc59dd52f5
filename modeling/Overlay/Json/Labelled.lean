/-
Labelled records in JSON.

A labelled record is an object in which one member, the label, tells what kind of record it is; or
an array that starts with the label.  The label may stand anywhere in the object, so the other
members are read as a whole and held until it is known.
-/
import Overlay.Json.Fields

namespace Overlay

/-- A type whose values are written as labelled records. -/
structure Labelled (α : Type) where
  type : String
  /-- The name of the member that holds the label. -/
  label : String
  /-- How the other members are read, by the label. -/
  kinds : List (String × Decoder α)

namespace Labelled

variable {α : Type}

/-- The words for a value of the type. -/
def expected (t : Labelled α) : String :=
  "internally tagged enum " ++ t.type

/-- The way to read the other members that a label names. -/
def kind (t : Labelled α) : Draft → Except Failure (Decoder α)
  | .string name => Decoder.choose t.kinds name
  | d => Decoder.expect "variant identifier" d

/-- Takes the members of an object one after the other: the kind, and what is held. -/
def members (t : Labelled α) (room : Nat) :
    List (Label × Draft) → Option (Decoder α) → List (Label × Draft) →
    Except Failure (Option (Decoder α) × List (Label × Draft))
  | [], kind?, held => .ok (kind?, held)
  | (.name name, value) :: more, kind?, held =>
    if name = t.label then
      match kind? with
      | some _ => Decoder.refuse (.duplicateField t.label)
      | none => do
        let kind ← t.kind value
        t.members room more (some kind) held
    else do
      Decoder.proceed (value.flaw? room)
      t.members room more kind? (held ++ [(.name name, value)])
  | (.illegible f, _) :: _, _, _ => Decoder.stop f

/-- The labelled record, with the room left inside. -/
def decode (t : Labelled α) (room : Nat) : Decoder α
  | _, .object drafts ending => do
    let (kind?, held) ← t.members room drafts none []
    Decoder.proceed ending
    match kind? with
    | none => Decoder.refuse (.missingField t.label)
    | some kind => kind .held (.object held none)
  | _, .array [] ending => do
    Decoder.proceed ending
    Decoder.refuse (.missingField t.label)
  | _, .array (label :: items) ending => do
    let kind ← t.kind label
    Decoder.proceed (items.findSome? (Draft.flaw? room))
    Decoder.proceed ending
    kind .held (.array items none)
  | _, d => Decoder.expect t.expected d

end Labelled

end Overlay
