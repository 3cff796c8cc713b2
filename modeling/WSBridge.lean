import WSBridge.Foundation.Keystream
import WSBridge.Foundation.Framing
import WSBridge.Foundation.Runs
import WSBridge.Upstream.AESCTR
import WSBridge.Upstream.InitParser
import WSBridge.Upstream.InitCodec
import WSBridge.Upstream.MsgSplitter
import WSBridge.Session.TunnelSession
import WSBridge.Session.Upstream
import WSBridge.Session.Downstream
import WSBridge.Session.Calls
import WSBridge.Foundation.ScanTable
import WSBridge.Foundation.OnesComplement
import WSBridge.Bridge.NatTable
import WSBridge.Bridge.Packet
import WSBridge.Bridge.LwipBridge
import WSBridge.Bridge.Steps
import WSBridge.Bridge.Slots
import WSBridge.Bridge.NatLeak
import WSBridge.Cascade.WSClient
import WSBridge.Cascade.Progress
import WSBridge.Cascade.Failover
import WSBridge.Cascade.Close
import WSBridge.Bridge.NatMapping
import WSBridge.Bridge.NatRefinement
import WSBridge.Bridge.Translation
import WSBridge.Session.Erasure
import WSBridge.System.Provider
import WSBridge.System.Links
import WSBridge.System.CrossTalk
import WSBridge.System.Callbacks
import WSBridge.System.Stall
import WSBridge.Cascade.Indices
import WSBridge.Cascade.Ends
import WSBridge.Cascade.Pipe
import WSBridge.Cascade.Winner
import WSBridge.System.Pairing
import WSBridge.System.Ledger
import WSBridge.System.Books
import WSBridge.System.Isolation
import WSBridge.System.Mirror
import WSBridge.System.Backlog
import WSBridge.Cascade.Relay
import WSBridge.Cascade.RelayClient
import WSBridge.Cascade.OnClose
import WSBridge.Upstream.Reference
import WSBridge.System.Conservation
import WSBridge.Session.Truncation
import WSBridge.Bridge.Checksum
import WSBridge.Bridge.Rewriting
import WSBridge.Session.PipeMode
import WSBridge.Worker.Worker
import WSBridge.Worker.PipePath
import WSBridge.Cascade.Fronts
import WSBridge.Foundation.Rotation
import WSBridge.Cascade.Fleet
import WSBridge.Journal.EventLog
import WSBridge.Cascade.Shares
import WSBridge.System.GatewayPath
import WSBridge.System.RelayPath
import WSBridge.Cascade.Turns
