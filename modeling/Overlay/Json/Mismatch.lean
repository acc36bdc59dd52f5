/-
Why a JSON text does not give the value that is asked for.

Either the text is not JSON (`Failure.fault`), or it is JSON of the wrong shape: then a `Mismatch`
says what was found and what was expected, and `Mismatch.message` says it in words.
-/
import Overlay.Json.Draft
import Overlay.Decimal.Shortest
import Overlay.Text.Shown

namespace Overlay

/-- What is found in the place of a value, as far as a message tells it. -/
inductive Found where
  | null
  | boolean (value : Bool)
  | integer (value : Int)
  | float (value : Float)
  | string (value : String)
  | sequence
  | map

/-- JSON of the wrong shape. -/
inductive Mismatch where
  /-- A value of another type. -/
  | wrongType (found : Found) (expected : String)
  /-- A value of the right type that is not allowed. -/
  | wrongValue (found : Found) (expected : String)
  /-- An array of the wrong length. -/
  | wrongLength (found : Nat) (expected : String)
  | missingField (name : String)
  | duplicateField (name : String)
  | unknownVariant (name : String) (known : List String)
  /-- A value that has none of the forms of a type. -/
  | noForm (type : String)

/-- Why a value cannot be read. -/
inductive Failure where
  | fault (kind : Fault)
  | mismatch (kind : Mismatch)

/-- A text in backticks. -/
def ticked (text : String) : String :=
  "`" ++ text ++ "`"

namespace Found

def text : Found → String
  | null => "null"
  | boolean true => "boolean `true`"
  | boolean false => "boolean `false`"
  | integer n => "integer " ++ ticked (toString n)
  | float x => "floating point " ++ ticked (Decimal.ofFloat x)
  | string s => "string " ++ Text.shown s
  | sequence => "sequence"
  | map => "map"

end Found

namespace Mismatch

/-- A count of elements in words. -/
def elements (n : Nat) : String :=
  if n = 1 then "1 element" else toString n ++ " elements"

/-- A choice among names in words. -/
def oneOf : List String → String
  | [] => "there are no variants"
  | [a] => "expected " ++ ticked a
  | [a, b] => "expected " ++ ticked a ++ " or " ++ ticked b
  | names => "expected one of " ++ ", ".intercalate (names.map ticked)

def message : Mismatch → String
  | wrongType found expected => "invalid type: " ++ found.text ++ ", expected " ++ expected
  | wrongValue found expected => "invalid value: " ++ found.text ++ ", expected " ++ expected
  | wrongLength n expected => "invalid length " ++ toString n ++ ", expected " ++ expected
  | missingField name => "missing field " ++ ticked name
  | duplicateField name => "duplicate field " ++ ticked name
  | unknownVariant name known => "unknown variant " ++ ticked name ++ ", " ++ oneOf known
  | noForm type => "data did not match any variant of untagged enum " ++ type

end Mismatch

namespace Draft

/-- What is found here; a fault, if no value is. -/
def found : Draft → Except Fault Found
  | null => .ok .null
  | bool value => .ok (.boolean value)
  | number (.whole n) => .ok (.integer n)
  | number (.float x) => .ok (.float x)
  | string s => .ok (.string s)
  | array _ _ => .ok .sequence
  | object _ _ => .ok .map
  | clipped _ => .error .truncated
  | fault read _ => .error read

end Draft

end Overlay
