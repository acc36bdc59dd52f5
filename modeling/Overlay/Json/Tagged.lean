/-
Tagged values in JSON.

A tagged value is an object with two members, the tag and the content, or an array of the two.
The tag names a variant, and the variant says how its content is read; a variant without content
takes null or no content at all.  The members may stand in either order.  A content in front of its
tag is read as a whole and held until the tag is known.
-/
import Overlay.Json.Decoder

namespace Overlay

/-- What a variant does with its content. -/
inductive Payload (α : Type) where
  | constant (value : α)
  | carried (decode : Decoder α)

/-- A type whose values are written with a tag. -/
structure Tagged (α : Type) where
  type : String
  tag : String
  content : String
  /-- The variants by their tags; each with its own name in messages. -/
  variants : List (String × String × Payload α)

namespace Tagged

variable {α : Type}

/-- The words for a value of the type. -/
def expected (t : Tagged α) : String :=
  "adjacently tagged enum " ++ t.type

/-- The variants by their tags. -/
abbrev Variant (α : Type) : Type :=
  String × Payload α

/-- The variant that a tag names, where the tag is a member of an object. -/
def variant (t : Tagged α) (room : Nat) : Decoder (Variant α) :=
  Decoder.choice t.variants room

/-- The variant that a tag names, where the tag is an item of an array.  What was held can also
give the number of the variant. -/
def variantInArray (t : Tagged α) : Decoder (Variant α)
  | _, .string name => Decoder.choose t.variants name
  | .held, .number (.whole (.ofNat n)) =>
    match t.variants[n]? with
    | some (_, variant) => .ok variant
    | none => Decoder.refuse
        (.wrongValue (.integer n) ("variant index 0 <= i < " ++ toString t.variants.length))
  | _, d => Decoder.expect "variant identifier" d

/-- The value of a variant from its content. -/
def fill (t : Tagged α) (room : Nat) : Variant α → Decoder α
  | (_, .constant value), _, .null => .ok value
  | (name, .constant _), _, d =>
    let expected := "unit variant " ++ t.type ++ "::" ++ name
    if room = 0 then Decoder.tooDeep expected d else Decoder.expect expected d
  | (_, .carried decode), origin, d => decode origin d

/-- The value of a variant without content. -/
def bare (t : Tagged α) : Variant α → Except Failure α
  | (_, .constant value) => .ok value
  | (_, .carried _) => Decoder.refuse (.missingField t.content)

/-- One of the two members. -/
inductive Part where
  | tag
  | content

/-- The next of the two members in an object, the others being passed over: its value and the
members behind it. -/
def nextPart (t : Tagged α) : List (Label × Draft) →
    Except Failure (Option (Part × Draft × List (Label × Draft)))
  | [] => .ok none
  | (.name name, value) :: more =>
    if name = t.tag then .ok (some (.tag, value, more))
    else if name = t.content then .ok (some (.content, value, more))
    else do
      Decoder.proceed value.cut?
      t.nextPart more
  | (.illegible f, _) :: _ => Decoder.stop f

/-- The end of an object, where neither of the two members may come again. -/
def close (t : Tagged α) (members : List (Label × Draft)) (ending : Option Fault) :
    Except Failure Unit := do
  match ← t.nextPart members with
  | none => Decoder.proceed ending
  | some (.tag, _) => Decoder.refuse (.duplicateField t.tag)
  | some (.content, _) => Decoder.refuse (.duplicateField t.content)

/-- The value in the members of an object. -/
def inObject (t : Tagged α) (room : Nat) (origin : Origin)
    (members : List (Label × Draft)) (ending : Option Fault) : Except Failure α := do
  match ← t.nextPart members with
  | none =>
    Decoder.proceed ending
    Decoder.refuse (.missingField t.tag)
  | some (.tag, tag, more) =>
    let variant ← t.variant room origin tag
    match ← t.nextPart more with
    | none =>
      Decoder.proceed ending
      t.bare variant
    | some (.tag, _) => Decoder.refuse (.duplicateField t.tag)
    | some (.content, content, more) =>
      let value ← t.fill room variant origin content
      t.close more ending
      .ok value
  | some (.content, content, more) =>
    Decoder.proceed (content.flaw? room)
    match ← t.nextPart more with
    | none =>
      Decoder.proceed ending
      Decoder.refuse (.missingField t.tag)
    | some (.content, _) => Decoder.refuse (.duplicateField t.content)
    | some (.tag, tag, more) =>
      let variant ← t.variant room origin tag
      let value ← t.fill room variant .held content
      t.close more ending
      .ok value

/-- The value in the items of an array: the tag and the content. -/
def inArray (t : Tagged α) (room : Nat) (origin : Origin) (items : List Draft)
    (ending : Option Fault) : Except Failure α := do
  match items with
  | [] =>
    Decoder.proceed ending
    Decoder.refuse (.wrongLength 0 t.expected)
  | tag :: items =>
    let variant ← t.variantInArray origin tag
    match items with
    | [] =>
      Decoder.proceed ending
      Decoder.refuse (.wrongLength 1 t.expected)
    | content :: items =>
      let value ← t.fill room variant origin content
      Decoder.closeArray origin 2 items ending
      .ok value

/-- The tagged value, with the room left inside. -/
def decode (t : Tagged α) (room : Nat) : Decoder α
  | origin, .object members ending => t.inObject room origin members ending
  | origin, .array items ending => t.inArray room origin items ending
  | _, d => Decoder.expect t.expected d

end Tagged

end Overlay
