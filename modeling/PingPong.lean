import PingPong.Lib.Lts
import PingPong.Lib.Inevitable
import PingPong.Lib.Outbox
import PingPong.Lib.Bimap
import PingPong.Lib.ByteStack
import PingPong.Lib.Channel
import PingPong.Lib.Chunks
import PingPong.Lib.Blocks
import PingPong.Lib.Directory
import PingPong.Lib.Decimal
import PingPong.Lib.Pump
import PingPong.Lib.Words
import PingPong.Lib.Projection
import PingPong.Lib.Progress
import PingPong.Net.Message
import PingPong.Net.Link
import PingPong.Net.Connection
import PingPong.Net.Writing
import PingPong.Net.Reading
import PingPong.Net.Handshake
import PingPong.Net.History
import PingPong.Net.Endpoint
import PingPong.Net.Delivery
import PingPong.Net.Flush
import PingPong.Net.Server
import PingPong.Net.Draining
import PingPong.Net.Validation
import PingPong.Net.Intake
import PingPong.Net.Look
import PingPong.Common.Payload
import PingPong.Common.RoundTrip
import PingPong.Common.Reencoding
import PingPong.Server.ClientStorage
import PingPong.Server.FileServer
import PingPong.Server.Handled
import PingPong.Server.Faults
import PingPong.Server.Invariant
import PingPong.Server.Isolation
import PingPong.Server.Pairings
import PingPong.Server.Registrations
import PingPong.Server.Emission
import PingPong.Server.Announcements
import PingPong.Server.DeadSenders
import PingPong.Server.Ownership
import PingPong.Server.Outcomes
import PingPong.Server.Directory
import PingPong.Server.Roles
import PingPong.Server.ReceiverAnswers
import PingPong.Server.SenderAnswers
import PingPong.Server.Relayed
import PingPong.Server.Reports
import PingPong.Server.Framing
import PingPong.Server.Causes
import PingPong.Client.Session
import PingPong.Client.FileClient
import PingPong.Client.Sender
import PingPong.Client.Receiver
import PingPong.Client.Cutting
import PingPong.Client.Rebuilding
import PingPong.Client.MainLoop
import PingPong.Client.Completeness
import PingPong.Client.Verification
import PingPong.Client.Reassembly
import PingPong.Client.Waiting
import PingPong.Client.UnixIpUtils
import PingPong.Client.SubnetScan
import PingPong.Client.Interfaces
import PingPong.Client.Reporting
import PingPong.Client.PhraseGenerator
import PingPong.Client.Routines
import PingPong.Client.Progress
import PingPong.Client.Calm
import PingPong.System.Transfer
import PingPong.System.Channels
import PingPong.System.Relaying
import PingPong.System.Traffic
import PingPong.System.Integrity
import PingPong.System.Languages
import PingPong.System.Lookup
import PingPong.System.Discovery
import PingPong.System.Groups
import PingPong.System.Agreement
import PingPong.System.Served
import PingPong.System.Wired
import PingPong.System.Calm
import PingPong.System.Completion
import PingPong.System.Lan
