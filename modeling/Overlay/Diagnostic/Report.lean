/-
Reports.

A report shows each diagnostic on a line of its own, with its related sites indented below it, and
may close with a line of counts.  It can be coloured for a terminal.
-/
import Overlay.Diagnostic.Log

namespace Overlay.Diagnostic

/-! ### Colours -/

/-- A way to show a text on a terminal, by the codes that turn it on. -/
structure Style where
  codes : String

namespace Style

/-- Turns a style on. -/
def on (style : Style) : String :=
  "\x1b[" ++ style.codes ++ "m"

/-- Turns all styles off. -/
def off : String :=
  "\x1b[0m"

/-- A text in a style.  Where the text itself turns all styles off, the style is turned on again. -/
def paint (style : Style) (text : String) : String :=
  let kept := Text.replaceAll off.toList (off ++ style.on).toList text.toList
  style.on ++ String.ofList kept ++ off

def site : Style :=
  ⟨"36"⟩

def code : Style :=
  ⟨"94"⟩

def severity : Severity → Style
  | .error => ⟨"1;31"⟩
  | .warning => ⟨"1;33"⟩
  | .suggestion => ⟨"1;34"⟩
  | .message => ⟨"1;36"⟩

end Style

/-! ### Lines -/

/-- A text, in a style if colours are asked for. -/
def shown (colour : Bool) (style : Style) (text : String) : String :=
  if colour then style.paint text else text

/-- A related site below its diagnostic. -/
def Related.line (colour : Bool) (r : Related) : String :=
  "\n    " ++ shown colour Style.site r.site.text ++ ": " ++ r.message

def lines (colour : Bool) (d : Diagnostic) : String :=
  shown colour Style.site d.site.text ++ " - " ++
    shown colour (Style.severity d.severity) d.severity.text ++ " " ++
    shown colour Style.code (codeLabel d.code) ++ ": " ++ d.message ++
    String.join (d.related.map (Related.line colour))

def report (colour : Bool) (ds : List Diagnostic) : String :=
  "\n".intercalate (ds.map (lines colour))

/-! ### Counts -/

/-- A number of things in words. -/
def counted (n : Nat) (thing : String) : String :=
  toString n ++ " " ++ thing ++ if n = 1 then "" else "s"

/-- The line of counts; none if there is nothing to count. -/
def summary? (log : Log) : Option String :=
  let errors := log.errorCount
  let others := log.entries.length - errors
  if log.entries.isEmpty then none
  else if errors = 0 then some ("Found " ++ counted others "informational diagnostic" ++ ".")
  else if others = 0 then some ("Found " ++ counted errors "error" ++ ".")
  else some ("Found " ++ counted errors "error" ++ " and " ++
    counted others "informational diagnostic" ++ ".")

end Overlay.Diagnostic
