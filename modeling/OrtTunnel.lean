import OrtTunnel.Library.BigEndian
import OrtTunnel.Library.Scanner
import OrtTunnel.Proto.Codec
import OrtTunnel.Proto.Messages
import OrtTunnel.Proto.Framing
import OrtTunnel.Net.Transport
import OrtTunnel.Core.Suite
import OrtTunnel.Core.PlainSuite
import OrtTunnel.Core.Time
import OrtTunnel.Core.Pool
import OrtTunnel.Core.Record
import OrtTunnel.Library.Machine
import OrtTunnel.Core.Duplex
import OrtTunnel.Library.WindowLog
import OrtTunnel.Core.Replay
import OrtTunnel.Core.ConnMeta
import OrtTunnel.Core.Handshake.Client
import OrtTunnel.Core.Handshake.Server
import OrtTunnel.Core.Handshake.Agreement
import OrtTunnel.Core.Handshake.ServerRun
import OrtTunnel.Core.Handshake.AntiReplay
import OrtTunnel.Core.Handshake.Authentication
import OrtTunnel.Core.Handshake.KeyUniqueness
import OrtTunnel.Net.Session
import OrtTunnel.Net.Run
import OrtTunnel.Net.Forward
import OrtTunnel.Net.Transparency
import OrtTunnel.Core.Handshake.Exposure
import OrtTunnel.Core.Handshake.FailedFlights
import OrtTunnel.Core.Independence
import OrtTunnel.Core.NonceUniqueness
import OrtTunnel.Core.ReplayLog
import OrtTunnel.Proto.ReaderSafety
import OrtTunnel.Net.Delivery
import OrtTunnel.Net.StrictPin
import OrtTunnel.Net.Truncation
import OrtTunnel.Core.Handshake.Bounds
import OrtTunnel.Library.Progress
import OrtTunnel.Net.KeyConfirmation
import OrtTunnel.Net.Progress
import OrtTunnel.Net.UpTask
import OrtTunnel.Net.Daemon
import OrtTunnel.Cli.Certificates
import OrtTunnel.Net.Buffers
import OrtTunnel.Net.Connect
import OrtTunnel.Net.InjectiveAgreement
import OrtTunnel.Net.Resumption
import OrtTunnel.Net.AttackedDelivery
import OrtTunnel.Cli.Deployment
import OrtTunnel.Proto.Formats
