import PacketLayers.Catalog
import PacketLayers.Main
import PacketLayers.Proofs.Capture.RecordRun
import PacketLayers.Proofs.Capture.SectionRun
import PacketLayers.Proofs.Command.Overwrite
import PacketLayers.Proofs.Decode.Places
import PacketLayers.Proofs.Dissect.Packet
import PacketLayers.Proofs.Frame.Edits
import PacketLayers.Proofs.Decode.Compare
import PacketLayers.Proofs.Decode.Insertion
import PacketLayers.Proofs.Decode.Panics
import PacketLayers.Proofs.Capture.Steady
import PacketLayers.Proofs.Capture.Calls
import PacketLayers.Proofs.Capture.Buffer
import PacketLayers.Proofs.Capture.Loop
import PacketLayers.Proofs.Capture.Opening
import PacketLayers.Proofs.Capture.Placement
import PacketLayers.Proofs.Capture.Truncation
import PacketLayers.Proofs.Capture.ClassicFile
import PacketLayers.Proofs.Capture.Joined
import PacketLayers.Proofs.Capture.ByteOrders
import PacketLayers.Proofs.Dissect.Balance
import PacketLayers.Proofs.Json.Composites
import PacketLayers.Proofs.Report.RoundTrip
import PacketLayers.Proofs.Dissect.Carried
import PacketLayers.Proofs.Dissect.Sequences
import PacketLayers.Proofs.Dissect.Padding
import PacketLayers.Proofs.Protocol.Rewriting
import PacketLayers.Proofs.Decode.Nesting
import PacketLayers.Proofs.Command.Switches
import PacketLayers.Proofs.Command.Patterns
import PacketLayers.Proofs.Checksum.Register
import PacketLayers.Proofs.Protocol.Corruption
import PacketLayers.Proofs.Protocol.Refresh
import PacketLayers.Proofs.Command.Named
import PacketLayers.Proofs.Dissect.TimeBounds
import PacketLayers.Proofs.Protocol.Payload
import PacketLayers.Proofs.Frame.Clamping
import PacketLayers.Proofs.Decode.Trace
import PacketLayers.Proofs.Time.Text
import PacketLayers.Proofs.Protocol.Settings
