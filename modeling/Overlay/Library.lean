/-
Embedded libraries.

A library is a fragment that comes with the program, so that what every program finds declared need
not be given each time.  There is one: the module `javascript`, and the globals `JSON` and
`console`.
-/
import Overlay.Fragment

namespace Overlay

/-- An embedded library. -/
structure Library where
  name : String
  file : String
  records : List Record

namespace Library

/-- The library that sessions start with unless told otherwise. -/
def standard : Library where
  name := "stdlib"
  file := "lib.stdlib.d.ts"
  records := [
    .stub "javascript",
    .member "JSON" "stringify"
      ⟨[⟨"object", some (.named "any"), false, false⟩,
        ⟨"toEncodable", some (.named "Function"), true, false⟩], none⟩ none,
    .member "JSON" "parse" ⟨[⟨"input", some (.named "string"), false, false⟩], none⟩ none,
    .member "console" "log"
      ⟨[⟨"objects", some (.named "any[]"), false, true⟩], some (.named "void")⟩ none]

def all : List Library :=
  [standard]

def find? (name : String) : Option Library :=
  all.find? fun library => library.name == name

/-- The library whose records come from a file. -/
def ofFile? (file : String) : Option Library :=
  all.find? fun library => library.file == file

def fragment (library : Library) : Fragment :=
  ⟨library.file, library.records⟩

/-- A name that no library has. -/
structure Unknown where
  name : String
deriving DecidableEq, Repr

def Unknown.message (unknown : Unknown) : String :=
  "unknown embedded library '" ++ unknown.name ++ "'"

/-- The fragments of libraries by their names, or the first name that no library has. -/
def load (names : List String) : Except Unknown (List Fragment) :=
  names.mapM fun name =>
    match find? name with
    | some library => .ok library.fragment
    | none => .error ⟨name⟩

end Library

end Overlay
