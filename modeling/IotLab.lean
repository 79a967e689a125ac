import IotLab.LoadBalancer.Main
import IotLab.LoadBalancer.Steps
import IotLab.LoadBalancer.Sound
import IotLab.LoadBalancer.Execution
import IotLab.LoadBalancer.Counters
import IotLab.LoadBalancer.Coherence
import IotLab.LoadBalancer.Rewrite
import IotLab.LoadBalancer.Safety
import IotLab.LoadBalancer.Batch
import IotLab.LoadBalancer.RoundTrip
import IotLab.LoadBalancer.Sessions
import IotLab.LoadBalancer.PseudoPorts
import IotLab.LoadBalancer.Isolation
import IotLab.LoadBalancer.Affinity
import IotLab.LoadBalancer.Teardown
import IotLab.LoadBalancer.Replies
import IotLab.LoadBalancer.Checksum
import IotLab.LoadBalancer.Registration
import IotLab.LoadBalancer.StaleBuffer
import IotLab.ChatServer.Main
import IotLab.ChatServer.Membership
import IotLab.FileUpload.Delivery
import IotLab.FileUpload.Separation
import IotLab.MemoryStream.Bits
import IotLab.MemoryStream.Growth
import IotLab.MemoryStream.RoundTrip
import IotLab.MemoryStream.Values
import IotLab.Student.Main
import IotLab.Student.Parsing
import IotLab.Student.RoundTrip
import IotLab.Student.Transfer
import IotLab.Library.CyclicSweep
import IotLab.Library.InternetChecksum
import IotLab.LoadBalancer.ChecksumValue
import IotLab.LoadBalancer.Duplicates
import IotLab.LoadBalancer.Fairness
import IotLab.LoadBalancer.Independence
import IotLab.LoadBalancer.NatFrame
import IotLab.TcpClientRaw.Packet
import IotLab.ChatServer.Handlers
import IotLab.EchoClient.Exchange
import IotLab.EchoServers.Agreement
import IotLab.Library.WebSocketFrame
import IotLab.SimpleWsClient.Frame
import IotLab.TcpClientRaw.Main
import IotLab.TcpClientRaw.Sequence
import IotLab.Library.Balance
import IotLab.LoadBalancer.Balance
import IotLab.LoadBalancer.Destination
import IotLab.LoadBalancer.Health
import IotLab.MemoryStream.Storage
import IotLab.Student.Failure
import IotLab.MemoryStream.Endianness
import IotLab.MemoryStream.Extraction
import IotLab.Capture.Main
import IotLab.EchoClient.AnyPeer
import IotLab.EchoSelectServ.Main
import IotLab.FileUpload.Survival
import IotLab.MqttChat.Main
import IotLab.SimpleWsClient.Masking
import IotLab.SimpleWsClient.Response
import IotLab.SimpleWsClient.Robustness
import IotLab.ChatClient.Main
import IotLab.ChatRoom.Main
import IotLab.ChatRoom.Streams
import IotLab.Library.ConnectionTracking
import IotLab.LoadBalancer.Tracking
import IotLab.ControlPlane.Enrolment
import IotLab.ControlPlane.Law
import IotLab.Library.TcpSegment
import IotLab.TcpClientRaw.Wire
import IotLab.EchoRoom.Law
import IotLab.SimpleWsClient.Session
import IotLab.Student.Session
import IotLab.EchoRoom.Edge
import IotLab.EchoRoom.EdgeLaw
import IotLab.FileUpload.Law
import IotLab.LoadBalancer.Conversation
import IotLab.MemoryStream.Amortised
import IotLab.Capture.Reports
