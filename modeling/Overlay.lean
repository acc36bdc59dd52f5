import Overlay.LogFormat
import Overlay.Main
import Overlay.Proofs.Assoc
import Overlay.Proofs.Ty.Nameless
import Overlay.Proofs.Ty.Identity
import Overlay.Proofs.Ty.Weakening
import Overlay.Proofs.Ty.Shape
import Overlay.Proofs.Ty.Arity
import Overlay.Proofs.Overload
import Overlay.Proofs.Registry
import Overlay.Proofs.Merge
import Overlay.Proofs.Resolve
import Overlay.Proofs.Table
import Overlay.Proofs.Calls
import Overlay.Proofs.Closed
import Overlay.Proofs.Collapse
import Overlay.Proofs.Order
import Overlay.Proofs.Reports
import Overlay.Proofs.Reordering
import Overlay.Proofs.Isolation
import Overlay.Proofs.Withdrawal
import Overlay.Proofs.Sites
import Overlay.Proofs.Orderly
import Overlay.Proofs.Errors
import Overlay.Proofs.Numbers
import Overlay.Proofs.Unsited
import Overlay.Proofs.Fragment
import Overlay.Proofs.Cuts
import Overlay.Proofs.Quiet
import Overlay.Proofs.Growth
import Overlay.Proofs.Repetition
import Overlay.Proofs.Across
import Overlay.Proofs.Fallback
import Overlay.Proofs.Views
import Overlay.Proofs.Json.Tokens
import Overlay.Proofs.Json.Values
import Overlay.Proofs.Canonical
import Overlay.Proofs.Json.Fields
import Overlay.Proofs.RoundTrip
import Overlay.Proofs.Grouping
import Overlay.Proofs.Json.Tagged
import Overlay.Proofs.ReadBack
import Overlay.Proofs.Lowering
import Overlay.Proofs.Replacement
import Overlay.Proofs.Ty.Tokens
import Overlay.Proofs.Ty.Reading
import Overlay.Proofs.Template
import Overlay.Proofs.Plain
import Overlay.Proofs.Lines
import Overlay.Proofs.Log
import Overlay.Proofs.Summary
