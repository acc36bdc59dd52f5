/-
Options of a build.
-/

namespace Overlay

/-- What a build does beyond its fixed rules. -/
structure Options where
  /-- Report each member that gets a second signature. -/
  reportOverloads : Bool
  /-- Look a name up in the bodies of all modules, if neither its own scope nor the global one
  declares it. -/
  acrossModules : Bool
  /-- The libraries that a session starts with, by name. -/
  libraries : List String
deriving DecidableEq, Repr

namespace Options

/-- The options where none are given. -/
def standard : Options :=
  ⟨true, true, ["stdlib"]⟩

/-- The same, without libraries. -/
def bare : Options :=
  { standard with libraries := [] }

end Options

end Overlay
