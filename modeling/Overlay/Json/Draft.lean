/-
JSON text as it was found.

A text can stop being JSON anywhere, and what a reader says about it depends on how far the value
that it wants reaches.  So reading does not answer "yes" or "no" but gives a `Draft`: the tree of
what was found, with the `Fault`s at the places where they are met.  A draft is cut at the first
place from which nothing more can be read, so all that follows a cut part is cut too
(`Draft.cut?`).

Two readings of one place can differ.  A part whose value is wanted is read in full; a part that
is only passed over is looked at for its extent alone, so that a number too large or a lone half
of a surrogate pair does no harm there.  `Draft.fault` holds what each of the two finds.  All this
serves two questions: the fault that ends a part (`Draft.cut?`), and the first fault in a part that
has to be a value (`Draft.flaw?`).
-/

namespace Overlay

/-- Why a text is not JSON: it breaks the grammar, or it ends too early. -/
inductive Fault where
  | malformed
  | truncated
deriving DecidableEq, Repr

/-- A JSON number: whole and within 64 bits, or else the nearest float. -/
inductive Numeral where
  | whole (value : Int)
  | float (value : Float)

/-- What stands in the place of a member's name: a string, or what keeps it from being one. -/
inductive Label where
  | name (text : String)
  | illegible (read : Fault)
deriving DecidableEq, Repr

/-- A piece of JSON text as it was found. -/
inductive Draft where
  | null
  | bool (value : Bool)
  | number (value : Numeral)
  | string (value : String)
  /-- The items, and what is wrong behind the last one, if anything. -/
  | array (items : List Draft) (ending : Option Fault)
  /-- The members, and what is wrong behind the last one, if anything. -/
  | object (members : List (Label × Draft)) (ending : Option Fault)
  /-- A number or a word for a value, cut short by the end of the text, and what one who passes
  over it makes of that. -/
  | clipped (passed : Fault)
  /-- No value: what a reader meets who wants one, and what one who passes over it meets. -/
  | fault (read : Fault) (passed : Option Fault)

namespace Draft

/-- The text cannot be read from here on. -/
def broken (f : Fault) : Draft :=
  .fault f (some f)

/-- The fault that ends the text inside this draft, if one does. -/
def cut? : Draft → Option Fault
  | null | bool _ | number _ | string _ => none
  | array _ ending | object _ ending => ending
  | clipped passed => some passed
  | fault _ passed => passed

/-- What is wrong with a draft that has to be a value, when at most `room` arrays and objects may
be open at once.  The first fault in the order of the text counts. -/
def flaw? : (room : Nat) → Draft → Option Fault
  | _, null | _, bool _ | _, number _ | _, string _ => none
  | _, clipped _ => some .truncated
  | _, fault read _ => some read
  | 0, array _ _ | 0, object _ _ => some .malformed
  | room + 1, array items ending => (items.findSome? (flaw? room)).or ending
  | room + 1, object members ending =>
    (members.findSome? fun
      | (.name _, value) => flaw? room value
      | (.illegible read, _) => some read).or ending

end Draft

end Overlay
