/-
Reading JSON text.

`Draft.read` gives the draft of a value at the head of a text, and the text behind it.  Each step
of the reading takes a character or more, so a number of steps above the length of the text is
enough; `Draft.ofText` starts with that many.
-/
import Overlay.Json.Literal
import Overlay.Json.Quoted

namespace Overlay.Draft

/-- The four blanks of the format. -/
def isBlank (c : Char) : Bool :=
  c = ' ' || c = '\n' || c = '\t' || c = '\r'

/-- The text from its first character that is no blank. -/
def skipBlanks (text : List Char) : List Char :=
  text.dropWhile isBlank

/-- The text behind a word that it has to go on with. -/
def readWord : (word : List Char) → (text : List Char) → Except Fault (List Char)
  | [], text => .ok text
  | _ :: _, [] => .error .truncated
  | w :: word, c :: text => if w = c then readWord word text else .error .malformed

/-- The draft of a word that stands for a value. -/
def word (value : Draft) (rest : List Char) (text : List Char) : Draft × List Char :=
  match readWord rest text with
  | .ok text => (value, text)
  | .error .truncated => (clipped .truncated, [])
  | .error .malformed => (broken .malformed, [])

mutual

/-- A value at the head of a text, and the text behind it. -/
def read : (steps : Nat) → List Char → Draft × List Char
  | 0, _ => (broken .malformed, [])
  | steps + 1, text =>
    match skipBlanks text with
    | [] => (broken .truncated, [])
    | 'n' :: text => word .null ['u', 'l', 'l'] text
    | 't' :: text => word (.bool true) ['r', 'u', 'e'] text
    | 'f' :: text => word (.bool false) ['a', 'l', 's', 'e'] text
    | '"' :: text => Quoted.draft text
    | '[' :: text =>
      let (items, ending, rest) := readItems steps text
      (.array items ending, rest)
    | '{' :: text =>
      let (members, ending, rest) := readMembers steps text
      (.object members ending, rest)
    | c :: text =>
      if c = '-' ∨ c.isDigit then Literal.draft (c :: text) else (broken .malformed, [])
termination_by structural steps => steps

/-- The items of an array behind its bracket. -/
def readItems : (steps : Nat) → List Char → List Draft × Option Fault × List Char
  | 0, _ => ([], some .malformed, [])
  | steps + 1, text =>
    match skipBlanks text with
    | [] => ([], some .truncated, [])
    | ']' :: rest => ([], none, rest)
    | text =>
      let (item, rest) := read steps text
      let (items, ending, rest) := readMoreItems steps item rest
      (item :: items, ending, rest)
termination_by structural steps => steps

/-- The items behind one of them. -/
def readMoreItems : (steps : Nat) → (last : Draft) → List Char →
    List Draft × Option Fault × List Char
  | 0, _, _ => ([], some .malformed, [])
  | steps + 1, last, text =>
    match last.cut? with
    | some f => ([], some f, [])
    | none =>
      match skipBlanks text with
      | [] => ([], some .truncated, [])
      | ']' :: rest => ([], none, rest)
      | ',' :: text =>
        let (item, rest) := read steps text
        let (items, ending, rest) := readMoreItems steps item rest
        (item :: items, ending, rest)
      | _ :: _ => ([], some .malformed, [])
termination_by structural steps => steps

/-- The members of an object behind its brace. -/
def readMembers : (steps : Nat) → List Char →
    List (Label × Draft) × Option Fault × List Char
  | 0, _ => ([], some .malformed, [])
  | steps + 1, text =>
    match skipBlanks text with
    | '}' :: rest => ([], none, rest)
    | text =>
      let (label, value, rest) := readMember steps text
      let (members, ending, rest) := readMoreMembers steps value rest
      ((label, value) :: members, ending, rest)
termination_by structural steps => steps

/-- The members behind one of them. -/
def readMoreMembers : (steps : Nat) → (last : Draft) → List Char →
    List (Label × Draft) × Option Fault × List Char
  | 0, _, _ => ([], some .malformed, [])
  | steps + 1, last, text =>
    match last.cut? with
    | some f => ([], some f, [])
    | none =>
      match skipBlanks text with
      | [] => ([], some .truncated, [])
      | '}' :: rest => ([], none, rest)
      | ',' :: text =>
        let (label, value, rest) := readMember steps text
        let (members, ending, rest) := readMoreMembers steps value rest
        ((label, value) :: members, ending, rest)
      | _ :: _ => ([], some .malformed, [])
termination_by structural steps => steps

/-- A member: its name, a colon and its value. -/
def readMember : (steps : Nat) → List Char → Label × Draft × List Char
  | 0, _ => (.illegible .malformed, broken .malformed, [])
  | steps + 1, text =>
    match skipBlanks text with
    | [] => (.illegible .truncated, broken .truncated, [])
    | '"' :: text =>
      match Quoted.draft text with
      | (.string name, rest) =>
        let (value, rest) := readValue steps rest
        (.name name, value, rest)
      | (.fault f none, rest) =>
        let (value, rest) := readValue steps rest
        (.illegible f, value, rest)
      | (.fault f (some passed), _) => (.illegible f, broken passed, [])
      | _ => (.illegible .malformed, broken .malformed, [])
    | _ :: _ => (.illegible .malformed, broken .malformed, [])
termination_by structural steps => steps

/-- The value of a member behind its name. -/
def readValue : (steps : Nat) → List Char → Draft × List Char
  | 0, _ => (broken .malformed, [])
  | steps + 1, text =>
    match skipBlanks text with
    | [] => (broken .truncated, [])
    | ':' :: text => read steps text
    | _ :: _ => (broken .malformed, [])
termination_by structural steps => steps

end

/-- The draft of the value that a text starts with, and the text behind it.  A level of nesting
takes four steps at most, one of them without a character. -/
def ofText (text : String) : Draft × List Char :=
  let chars := text.toList
  read (4 * chars.length + 8) chars

end Overlay.Draft
