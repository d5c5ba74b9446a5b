import PacketMemory.Operation
import PacketMemory.Overlay.Samples
import PacketMemory.World.Lemmas
import PacketMemory.Proofs.Block
import PacketMemory.Proofs.Contract
import PacketMemory.Proofs.Cursor
import PacketMemory.Proofs.Scalar
import PacketMemory.Proofs.Encoding
import PacketMemory.Proofs.Pane.Sound
import PacketMemory.Proofs.Pane.Search
import PacketMemory.Proofs.Pane.Access
import PacketMemory.Proofs.Pane.Calls
import PacketMemory.Proofs.Pane.Sequential
import PacketMemory.Proofs.Pane.Checks
import PacketMemory.Proofs.Pane.Released
import PacketMemory.Proofs.Pane.Window
import PacketMemory.Proofs.Pane.Record
import PacketMemory.Proofs.Pane.Parts
import PacketMemory.Proofs.Pane.Footprint
import PacketMemory.Proofs.Pane.Fields
import PacketMemory.Proofs.World.Deed
import PacketMemory.Proofs.World.Overlay
import PacketMemory.Proofs.World.Run
import PacketMemory.Proofs.World.Calls
import PacketMemory.Proofs.World.Later
import PacketMemory.Proofs.World.Frame
import PacketMemory.Proofs.World.Tracking
import PacketMemory.Proofs.Atomicity
import PacketMemory.Proofs.Leak.Accounting
import PacketMemory.Proofs.Leak.Checks
import PacketMemory.Proofs.Leak.Reports
import PacketMemory.Proofs.Leak.Order
import PacketMemory.Proofs.Safety
import PacketMemory.Proofs.Release
import PacketMemory.Proofs.UseAfterRelease
import PacketMemory.Proofs.Slice
import PacketMemory.Proofs.Text.Codec
import PacketMemory.Proofs.Message
import PacketMemory.Proofs.CaptureRecord
import PacketMemory.Proofs.Frame
import PacketMemory.Proofs.Interleaving
import PacketMemory.Proofs.Pane.Demand
import PacketMemory.Proofs.Bounds
import PacketMemory.Proofs.Transfer
import PacketMemory.Proofs.Resize
import PacketMemory.Proofs.Derivation
import PacketMemory.Proofs.TypedAccess
import PacketMemory.Proofs.Pane.Stream
import PacketMemory.Proofs.Discard
import PacketMemory.Proofs.Marks
import PacketMemory.Proofs.Leak.Outstanding
import PacketMemory.Proofs.Leak.Sweeps
import PacketMemory.Proofs.Copy
import PacketMemory.Proofs.Search
import PacketMemory.Proofs.Equality
import PacketMemory.Proofs.Cast
import PacketMemory.Proofs.RecordFields
import PacketMemory.Proofs.TextAccess
import PacketMemory.Proofs.Measurements
import PacketMemory.Proofs.Leak.Environment
import PacketMemory.Proofs.TypeName
