/-
Tables in JSON.
-/
import Overlay.Declaration.Json
import Overlay.Diagnostic.Json
import Overlay.Table

namespace Overlay

def ModuleView.json (view : ModuleView) : Json :=
  .object [("name", .string view.name),
    ("declarations", .array (view.declarations.map Declaration.json))]

def Table.json (table : Table) : Json :=
  .object [("declarations", .array (table.declarations.map Declaration.json)),
    ("modules", .array (table.modules.map ModuleView.json)),
    ("diagnostics", .array (table.diagnostics.map Diagnostic.json))]

/-- The canonical text of a table: equal tables have the same. -/
def Table.canonical (table : Table) : String :=
  table.json.render

end Overlay
