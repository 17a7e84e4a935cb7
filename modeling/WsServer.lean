import WsServer.Core.Machine
import WsServer.Core.Checked
import WsServer.Core.Linked
import WsServer.Core.Utf8
import WsServer.Core.BigEndian
import WsServer.Core.Blocks
import WsServer.Core.Fips180
import WsServer.Core.Growable
import WsServer.Core.Chain
import WsServer.Proto.Ws
import WsServer.Proto.Header
import WsServer.Proto.Sha1
import WsServer.Proto.Base64
import WsServer.Proto.Http
import WsServer.Proto.Lines
import WsServer.Proto.Block
import WsServer.Proto.Scan
import WsServer.Proto.Request
import WsServer.Proto.Decimal
import WsServer.Proto.Rules
import WsServer.Proto.Forms
import WsServer.Proto.Validator
import WsServer.Conn.Buf
import WsServer.Conn.Memory
import WsServer.Conn.Queue
import WsServer.Conn.Nodes
import WsServer.Conn.Conn
import WsServer.Worker.Worker
import WsServer.Worker.Refine
import WsServer.Worker.Runs
import WsServer.Worker.Opening
import WsServer.Worker.Target
import WsServer.Agg.Steps
import WsServer.Agg.Pump
import WsServer.Agg.Wire
import WsServer.Agg.Control
import WsServer.Agg.Pongs
import WsServer.Core.Json
import WsServer.Core.Tickets
import WsServer.Agg.Numbering
import WsServer.Agg.Envelope
import WsServer.Agg.Conns
import WsServer.Agg.Shutdown
import WsServer.Core.Places
import WsServer.Core.Farewell
import WsServer.Server.Server
import WsServer.Server.Shift
import WsServer.Server.Owners
import WsServer.Server.Calm
import WsServer.Server.Closing
import WsServer.Server.Registry
import WsServer.Server.Resume
import WsServer.Server.Ledger
import WsServer.Upstream.Client
import WsServer.Upstream.Frames
import WsServer.Upstream.Agree
import WsServer.Upstream.Blocking
import WsServer.Upstream.Masked
import WsServer.Upstream.Handshake
import WsServer.Upstream.Segments
import WsServer.Upstream.Reactor
import WsServer.Upstream.Steady
import WsServer.Upstream.Account
import WsServer.Upstream.Record
import WsServer.Server.Node
import WsServer.Server.View
import WsServer.Server.Said
import WsServer.Server.Closes
import WsServer.Server.Bounds
import WsServer.Server.Alive
import WsServer.Server.Options
import WsServer.Server.Upstreams
import WsServer.Server.Args
import WsServer.Server.Sources
import WsServer.Server.Codes
import WsServer.Core.Monitor
import WsServer.Core.Custody
import WsServer.Conn.Mutex
import WsServer.Server.Wakeup
import WsServer.Server.Lifecycle
import WsServer.Server.Freed
import WsServer.Core.Delivery
import WsServer.Agg.Reads
import WsServer.Server.Stream
import WsServer.Server.Merge
import WsServer.Server.Relay
import WsServer.Upstream.Backoff
import WsServer.Server.Parking
