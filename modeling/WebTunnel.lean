import WebTunnel.Library.Program
import WebTunnel.Library.Run
import WebTunnel.Library.Lists
import WebTunnel.Library.Routines
import WebTunnel.Library.Chains
import WebTunnel.Library.Linked
import WebTunnel.Library.Slots
import WebTunnel.Library.Blocks
import WebTunnel.Library.Bytes
import WebTunnel.Library.Occurrences
import WebTunnel.Library.JavaScript
import WebTunnel.Library.Answers
import WebTunnel.Library.Json
import WebTunnel.Library.Stringify
import WebTunnel.Server.Sessions
import WebTunnel.Server.Wire
import WebTunnel.Server.Types
import WebTunnel.Server.Processors
import WebTunnel.Server.Webcam
import WebTunnel.Server.Framing
import WebTunnel.Server.Events
import WebTunnel.Server.Moves
import WebTunnel.Server.Binding
import WebTunnel.Server.Closing
import WebTunnel.Server.Accounts
import WebTunnel.Server.Accounting
import WebTunnel.Server.Freeing
import WebTunnel.Server.Isolation
import WebTunnel.Server.Registers
import WebTunnel.Server.Devices
import WebTunnel.Server.Snapshots
import WebTunnel.Server.Viewers
import WebTunnel.Server.Messages
import WebTunnel.Server.Retaining
import WebTunnel.Server.Skipping
import WebTunnel.Server.Splitting
import WebTunnel.Server.Fields
import WebTunnel.Server.Tables
import WebTunnel.Server.Cameras
import WebTunnel.Server.Inner
import WebTunnel.Server.Pieces
import WebTunnel.Server.Turns
import WebTunnel.Device.Types
import WebTunnel.Device.Buffers
import WebTunnel.Device.Parsing
import WebTunnel.Device.Http
import WebTunnel.Device.Forward
import WebTunnel.Device.Tunnel
import WebTunnel.Device.Manager
import WebTunnel.Device.Chunks
import WebTunnel.Device.Decoding
import WebTunnel.Device.Copying
import WebTunnel.Device.Texts
import WebTunnel.Device.Reassembly
import WebTunnel.Device.Detecting
import WebTunnel.Device.Chunked
import WebTunnel.Device.Stranding
import WebTunnel.Device.Connecting
import WebTunnel.Device.Answering
import WebTunnel.Device.Deadlines
import WebTunnel.Device.Collecting
import WebTunnel.Device.Creating
import WebTunnel.Device.Lengths
import WebTunnel.Device.Resyncing
import WebTunnel.Device.Naming
import WebTunnel.Device.Ciphering
import WebTunnel.Device.Writing
import WebTunnel.Device.Replying
import WebTunnel.Device.Requests
import WebTunnel.Device.Arrivals
import WebTunnel.Device.Routing
import WebTunnel.Device.Hosts
import WebTunnel.Device.Resuming
import WebTunnel.Device.Descriptors
import WebTunnel.Device.Waking
import WebTunnel.Device.Broadcasting
import WebTunnel.Device.Shaking
import WebTunnel.Device.Pointing
import WebTunnel.Device.Linking
import WebTunnel.Device.Feeding
import WebTunnel.Server.Rewriting
import WebTunnel.System.Forwarding
import WebTunnel.System.Addressing
import WebTunnel.Proxy.Service
import WebTunnel.System.Relaying
import WebTunnel.System.Sending
import WebTunnel.Server.Separating
import WebTunnel.Device.Greeting
import WebTunnel.System.Registering
