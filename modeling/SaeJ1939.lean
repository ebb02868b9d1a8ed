import SaeJ1939.Lib.Checked
import SaeJ1939.Lib.Bits
import SaeJ1939.Lib.BitFields
import SaeJ1939.Lib.Text
import SaeJ1939.Lib.Machine
import SaeJ1939.Lib.SlotTable
import SaeJ1939.Lib.Chunks
import SaeJ1939.Lib.Grants
import SaeJ1939.Lib.Ageing
import SaeJ1939.Lib.Interleaving
import SaeJ1939.Core.Id
import SaeJ1939.Core.Frame
import SaeJ1939.Core.Name
import SaeJ1939.Core.Request
import SaeJ1939.Core.Spn
import SaeJ1939.Lib.BroadcastNet
import SaeJ1939.Core.AddressClaim
import SaeJ1939.Network.Agreement
import SaeJ1939.Network.Settling
import SaeJ1939.Tp.Message
import SaeJ1939.Tp.Reassembler
import SaeJ1939.Tp.Transfer
import SaeJ1939.Tp.History
import SaeJ1939.Tp.Lifetime
import SaeJ1939.Tp.Isolation
import SaeJ1939.Tp.Transmitter
import SaeJ1939.Tp.Completion
import SaeJ1939.Tp.Grants
import SaeJ1939.Tp.Handshake
import SaeJ1939.Tp.Timeouts
import SaeJ1939.Node.Node
import SaeJ1939.Network.Holding
import SaeJ1939.Node.Safety
import SaeJ1939.Node.Claiming
import SaeJ1939.Node.Destinations
import SaeJ1939.Node.Silence
import SaeJ1939.Node.Outgoing
import SaeJ1939.Node.Delivery
import SaeJ1939.Node.Addressed
import SaeJ1939.Node.Duplex
import SaeJ1939.Node.Bus
import SaeJ1939.Node.Interleaving
import SaeJ1939.Etp.Message
import SaeJ1939.Etp.Reassembler
import SaeJ1939.Etp.Transfer
import SaeJ1939.Etp.Timeless
import SaeJ1939.Etp.History
import SaeJ1939.Etp.Timeouts
import SaeJ1939.Etp.Isolation
import SaeJ1939.Etp.Transmitter
import SaeJ1939.Etp.Completion
import SaeJ1939.Etp.Grants
import SaeJ1939.Etp.Handshake
import SaeJ1939.Diagnostics.Message
import SaeJ1939.Diagnostics.Identification
import SaeJ1939.Diagnostics.FaultLog
import SaeJ1939.Diagnostics.Lifecycle
import SaeJ1939.Diagnostics.Reports
import SaeJ1939.Diagnostics.Timing
import SaeJ1939.Schedule.Schedule
import SaeJ1939.Schedule.Rate
import SaeJ1939.Schedule.Invariant
import SaeJ1939.Schedule.Suspension
import SaeJ1939.Lib.WholeUnits
import SaeJ1939.Host.Replay
import SaeJ1939.Host.Signal
import SaeJ1939.Host.Dbc
import SaeJ1939.Host.Definitions
import SaeJ1939.Host.Decoding
import SaeJ1939.Host.Log
import SaeJ1939.Host.Captures
import SaeJ1939.Host.Verbatim
import SaeJ1939.Lib.Fallible
import SaeJ1939.Lib.Custody
import SaeJ1939.Lib.WireFormat
import SaeJ1939.Lib.Ledger
import SaeJ1939.Diagnostics.Services
import SaeJ1939.Diagnostics.MemoryAccess
import SaeJ1939.Core.Proprietary
import SaeJ1939.Iso11783.Valve
import SaeJ1939.Iso11783.TaskController
import SaeJ1939.Host.Bus
import SaeJ1939.Host.Ecu
import SaeJ1939.Host.Sending
import SaeJ1939.Host.Receiving
import SaeJ1939.Host.Running
import SaeJ1939.Host.GlobalRts
import SaeJ1939.Host.Clocks
import SaeJ1939.Host.Displacement
import SaeJ1939.Host.SideBySide
import SaeJ1939.Host.Payloads
import SaeJ1939.Host.ServiceTool
import SaeJ1939.Host.Hearing
import SaeJ1939.Host.Exchange
import SaeJ1939.Host.Keeping
import SaeJ1939.Host.Reaction
import SaeJ1939.Host.Safekeeping
import SaeJ1939.Host.Inventory
import SaeJ1939.Host.Quieting
import SaeJ1939.Host.Recording
