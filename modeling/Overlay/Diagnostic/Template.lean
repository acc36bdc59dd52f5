/-
Message templates.

A template is a text with numbered places in it.  Its own text shows each place by its number in
braces.  `Template.fillText` fills in arguments one after the other: the first replaces every `0`
in braces, then the second every `1` in braces, and so on, also where an earlier argument brought
them in.
-/
import Overlay.Text.Replace

namespace Overlay

/-- A part of a template: a text, or the place of an argument. -/
inductive Template.Part where
  | words (text : String)
  | place (index : Nat)
deriving DecidableEq, Repr

/-- A text with numbered places. -/
abbrev Template : Type :=
  List Template.Part

namespace Template

/-- A place as it is shown. -/
def mark (index : Nat) : List Char :=
  '{' :: Nat.toDigits 10 index ++ ['}']

/-- A part as it is shown. -/
def Part.chars : Part → List Char
  | .words s => s.toList
  | .place index => mark index

def text (template : Template) : String :=
  String.ofList (template.flatMap Part.chars)

/-- A text with arguments in the places that are marked in it. -/
def fillText (text : String) (arguments : List String) : String :=
  String.ofList <| arguments.zipIdx.foldl
    (fun text (argument, index) => Text.replaceAll (mark index) argument.toList text) text.toList

/-- A template with arguments in its places. -/
def fill (template : Template) (arguments : List String) : String :=
  fillText template.text arguments

end Template

end Overlay
