/-
Reading values from JSON.

A `Decoder` reads a value from a draft, or says why there is none; the first thing that is wrong
in the order of the text is what it reports.  It is told the `Origin` of the draft, on which a few
answers depend.  Arrays and objects are opened only while there is room: at most `Decoder.depth`
of them can be open at once, and a decoder that opens some takes the room that is left for them as
its first argument.
-/
import Overlay.Json.Mismatch
import Overlay.Json.Reader

namespace Overlay

/-- Where a draft comes from. -/
inductive Origin where
  /-- It is being read from a text, and what follows it is not looked at yet. -/
  | text
  /-- It was read from a text as a whole and set aside. -/
  | held
  /-- It was given as a value. -/
  | given
deriving DecidableEq, Repr

/-- A way to read a value from a draft. -/
abbrev Decoder (α : Type) : Type :=
  Origin → Draft → Except Failure α

namespace Decoder

/-- How many arrays and objects may be open at once. -/
def depth : Nat := 127

def stop {α : Type} (f : Fault) : Except Failure α :=
  .error (.fault f)

def refuse {α : Type} (m : Mismatch) : Except Failure α :=
  .error (.mismatch m)

/-- Stops because something else was expected. -/
def expect {α : Type} (expected : String) (d : Draft) : Except Failure α :=
  match d.found with
  | .error f => stop f
  | .ok found => refuse (.wrongType found expected)

/-- Stops where no array or object may be opened. -/
def tooDeep {α : Type} (expected : String) : Draft → Except Failure α
  | .array _ _ | .object _ _ => stop .malformed
  | d => expect expected d

/-- Goes on if there is no fault. -/
def proceed : Option Fault → Except Failure Unit
  | none => .ok ()
  | some f => stop f

/-! ### Plain values -/

def string : Decoder String
  | _, .string s => .ok s
  | _, d => expect "a string" d

def boolean : Decoder Bool
  | _, .bool b => .ok b
  | _, d => expect "a boolean" d

/-- A natural number of 32 bits. -/
def word : Decoder UInt32
  | _, .number (.whole n) =>
    if 0 ≤ n ∧ n < UInt32.size then .ok n.toNat.toUInt32
    else refuse (.wrongValue (.integer n) "u32")
  | _, d => expect "u32" d

/-- Null or a value. -/
def optional {α : Type} (decode : Decoder α) : Decoder (Option α)
  | _, .null => .ok none
  | origin, d => (decode origin d).map some

def items {α : Type} (decode : Decoder α) : Decoder (List α)
  | origin, .array drafts ending => do
    let values ← drafts.mapM (decode origin)
    proceed ending
    .ok values
  | _, d => expect "a sequence" d

/-- A list, opened with the room that is left. -/
def list {α : Type} (decode : Nat → Decoder α) : Nat → Decoder (List α)
  | 0 => fun _ => tooDeep "a sequence"
  | room + 1 => items (decode room)

/-- What is left over in an array of which `count` items were read. -/
def closeArray (origin : Origin) (count : Nat) (left : List Draft) (ending : Option Fault) :
    Except Failure Unit :=
  match origin, left with
  | _, [] => proceed ending
  | .text, _ :: _ => stop .malformed
  | .held, _ :: _ =>
    refuse (.wrongLength (count + left.length) (Mismatch.elements count ++ " in sequence"))
  | .given, _ :: _ => refuse (.wrongLength (count + left.length) "fewer elements in array")

/-! ### Choices -/

/-- The value that a name stands for. -/
def choose {α : Type} (choices : List (String × α)) (name : String) : Except Failure α :=
  match choices.lookup name with
  | some value => .ok value
  | none => refuse (.unknownVariant name (choices.map Prod.fst))

/-- Null, in the place where a choice could carry something. -/
def nothing : Decoder Unit
  | _, .null => .ok ()
  | .held, .object [] _ => .ok ()
  | _, d => expect "unit" d

/-- A choice by its name, read from a text: a string, or an object with the name for its only
member and null for its value. -/
def choiceInText {α : Type} (choices : List (String × α)) : Nat → Draft → Except Failure α
  | _, .string name => choose choices name
  | 0, .object _ _ => stop .malformed
  | _ + 1, .object [] ending => stop (ending.getD .malformed)
  | _ + 1, .object ((.illegible f, _) :: _) _ => stop f
  | _ + 1, .object ((.name name, value) :: more) ending => do
    let chosen ← choose choices name
    nothing .text value
    if more.isEmpty then proceed ending else stop .malformed
    .ok chosen
  | _, .fault f _ => stop f
  | _, _ => stop .malformed

/-- A choice by its name, read from a value: as in a text, but the object is looked at whole. -/
def choiceInValue {α : Type} (choices : List (String × α)) : Decoder α
  | _, .string name => choose choices name
  | origin, .object [(.name name, value)] _ => do
    let chosen ← choose choices name
    nothing origin value
    .ok chosen
  | _, .object _ _ => refuse (.wrongValue .map "map with a single key")
  | _, d => expect "string or map" d

def choice {α : Type} (choices : List (String × α)) (room : Nat) : Decoder α
  | .text, d => choiceInText choices room d
  | origin, d => choiceInValue choices origin d

/-! ### Whole texts -/

/-- Reads a whole text: nothing but blanks may follow the value. -/
def ofText {α : Type} (decode : Nat → Decoder α) (text : String) : Except Failure α := do
  let (draft, rest) := Draft.ofText text
  let value ← decode depth .text draft
  if (Draft.skipBlanks rest).isEmpty then .ok value else stop .malformed

/-- Reads a value that is given as such. -/
def ofValue {α : Type} (decode : Nat → Decoder α) (draft : Draft) : Except Failure α :=
  decode depth .given draft

end Decoder

end Overlay
