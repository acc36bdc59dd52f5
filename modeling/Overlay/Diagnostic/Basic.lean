/-
Diagnostics.

All that can be wrong with declarations can be mended, so nothing of it stops the work: it is
collected as diagnostics, each with the site that it belongs to.
-/
import Overlay.Site
import Overlay.Diagnostic.Template

namespace Overlay

inductive Severity where
  | warning
  | error
  | suggestion
  | message
deriving DecidableEq, Repr

def Severity.text : Severity → String
  | warning => "warning"
  | error => "error"
  | suggestion => "suggestion"
  | message => "message"

namespace Diagnostic

inductive Kind where
  /-- Parameters in the wrong order, or more than one variadic one: the declaration is dropped. -/
  | malformedSignature
  /-- A name that nothing is declared by: it is taken for `any`. -/
  | unknownType
  /-- A member with several signatures. -/
  | overloadAmbiguity
deriving DecidableEq, Repr

/-- What all diagnostics of a kind have in common. -/
structure Notice where
  code : UInt32
  severity : Severity
  template : Template

def Kind.notice : Kind → Notice
  | malformedSignature => ⟨9001, .error,
    [.words "Malformed signature for '", .place 0, .words "': ", .place 1,
      .words ". Declaration of '", .place 2, .words "' at this site is ignored."]⟩
  | unknownType => ⟨9002, .error,
    [.words "Cannot find type '", .place 0, .words "' referenced by '", .place 1,
      .words "'. Treating it as 'any'."]⟩
  | overloadAmbiguity => ⟨9003, .message,
    [.words "'", .place 0, .words "' is declared with differing signatures; '", .place 1,
      .words "' becomes overload ", .place 2, .words "."]⟩

/-- All notices, by ascending code. -/
def notices : List Notice :=
  [Kind.malformedSignature, Kind.unknownType, Kind.overloadAmbiguity].map Kind.notice

def notice? (code : UInt32) : Option Notice :=
  notices.find? fun notice => notice.code == code

/-- Another site that has to do with a diagnostic. -/
structure Related where
  site : Site
  message : String
deriving DecidableEq, Repr

end Diagnostic

/-- Something wrong, or worth knowing, about a declaration. -/
structure Diagnostic where
  kind : Diagnostic.Kind
  code : UInt32
  severity : Severity
  site : Site
  message : String
  related : List Diagnostic.Related
deriving DecidableEq, Repr

namespace Diagnostic

/-- The diagnostic of a kind, its template filled. -/
def ofKind (kind : Kind) (site : Site) (arguments : List String) : Diagnostic where
  kind := kind
  code := kind.notice.code
  severity := kind.notice.severity
  site := site
  message := kind.notice.template.fill arguments
  related := []

def withRelated (d : Diagnostic) (site : Site) (message : String) : Diagnostic :=
  { d with related := d.related ++ [⟨site, message⟩] }

def isError (d : Diagnostic) : Bool :=
  d.severity == .error

/-- The label under which a code is shown. -/
def codeLabel (code : UInt32) : String :=
  "AMB" ++ toString code.toNat

/-- The diagnostic on one line, without its related sites. -/
def text (d : Diagnostic) : String :=
  d.site.text ++ ": " ++ d.severity.text ++ " " ++ codeLabel d.code ++ ": " ++ d.message

end Diagnostic

end Overlay
