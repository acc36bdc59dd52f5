/-
Fragments in JSON.
-/
import Overlay.Fragment
import Overlay.Record.Json

namespace Overlay.Fragment

/-- The fragment whose records are written in a text. -/
def ofText (file text : String) : Except Failure Fragment :=
  (Decoder.ofText (Decoder.list Record.decode) text).map fun records => ⟨file, records⟩

end Overlay.Fragment
