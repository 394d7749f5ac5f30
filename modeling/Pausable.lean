import Pausable.Machine.Shown
import Pausable.Main
import Pausable.Program.Meaning
import Pausable.Program.Nested
import Pausable.Wire.Nested
import Pausable.Proofs.Command.Ended
import Pausable.Proofs.Command.Staged
import Pausable.Proofs.Json.Plain
import Pausable.Proofs.Json.Quoted
import Pausable.Proofs.Json.RoundTrip
import Pausable.Proofs.Json.Stopped
import Pausable.Proofs.Json.Tokens
import Pausable.Proofs.Machine.Calls
import Pausable.Proofs.Machine.Distinct
import Pausable.Proofs.Machine.Evaluates
import Pausable.Proofs.Machine.Failing
import Pausable.Proofs.Machine.Flattened
import Pausable.Proofs.Machine.Handled
import Pausable.Proofs.Machine.Leads
import Pausable.Proofs.Machine.Linked
import Pausable.Proofs.Machine.Local
import Pausable.Proofs.Machine.Mirrored
import Pausable.Proofs.Machine.Normal
import Pausable.Proofs.Machine.Paused
import Pausable.Proofs.Machine.Refused
import Pausable.Proofs.Machine.Reload
import Pausable.Proofs.Machine.Respelled
import Pausable.Proofs.Machine.Restored
import Pausable.Proofs.Machine.Safe
import Pausable.Proofs.Machine.Saved
import Pausable.Proofs.Machine.Slots
import Pausable.Proofs.Machine.Stale
import Pausable.Proofs.Machine.Steps
import Pausable.Proofs.Machine.Stuck
import Pausable.Proofs.Machine.Truncated
import Pausable.Proofs.Machine.Work
import Pausable.Proofs.Number.Digits
import Pausable.Proofs.Number.Shortest
import Pausable.Proofs.Number.Spelled
import Pausable.Proofs.Program.Awaiting
import Pausable.Proofs.Program.Draft
import Pausable.Proofs.Program.Native
import Pausable.Proofs.Program.Nested
import Pausable.Proofs.Program.Pruned
import Pausable.Proofs.Program.Written
import Pausable.Proofs.Result
import Pausable.Proofs.Store.Consistent
import Pausable.Proofs.Store.Handle
import Pausable.Proofs.Store.Label
import Pausable.Proofs.Store.Literal
import Pausable.Proofs.Store.Queried
import Pausable.Proofs.Store.Recalled
import Pausable.Proofs.Store.SameState
import Pausable.Proofs.Text.Classes
import Pausable.Proofs.Text.Cut
import Pausable.Proofs.Text.Hex
import Pausable.Proofs.Text.Paired
import Pausable.Proofs.Text.Printable
import Pausable.Proofs.Value.Nesting
import Pausable.Proofs.Value.Plain
import Pausable.Proofs.Value.Respelled
import Pausable.Proofs.Wire.Derives
import Pausable.Proofs.Wire.Emitted
import Pausable.Proofs.Wire.Grammar
import Pausable.Proofs.Wire.Joined
import Pausable.Proofs.Wire.Numerals
import Pausable.Proofs.Wire.Offender
import Pausable.Proofs.Wire.Printable
import Pausable.Proofs.Wire.Quoted
import Pausable.Proofs.Wire.Reads
import Pausable.Proofs.Wire.Reread
import Pausable.Proofs.Wire.RoundTrip
import Pausable.Proofs.Wire.Scalars
import Pausable.Proofs.Wire.Stable
import Pausable.Proofs.Wire.Tokens
import Pausable.Proofs.Workspace
