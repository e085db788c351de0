import PdaNetClient.Runs
import PdaNetClient.Numbered
import PdaNetClient.Spans
import PdaNetClient.Util
import PdaNetClient.Tls
import PdaNetClient.TlsHello
import PdaNetClient.TlsReading
import PdaNetClient.Http
import PdaNetClient.TcpSession
import PdaNetClient.TcpWrite
import PdaNetClient.TcpSocket
import PdaNetClient.TcpPacket
import PdaNetClient.TcpRuns
import PdaNetClient.TcpSteps
import PdaNetClient.TcpClosed
import PdaNetClient.TcpAccounting
import PdaNetClient.TcpUpstream
import PdaNetClient.TcpAcknowledged
import PdaNetClient.TcpReassembly
import PdaNetClient.TcpRewriting
import PdaNetClient.TcpConnect
import PdaNetClient.TcpTarget
import PdaNetClient.TcpDownstream
import PdaNetClient.TcpFlow
import PdaNetClient.TcpShift
import PdaNetClient.TcpReadSize
import PdaNetClient.TcpRepeat
import PdaNetClient.TcpFinish
import PdaNetClient.TcpReset
import PdaNetClient.TcpArrival
import PdaNetClient.TcpWindow
import PdaNetClient.VpnService
import PdaNetClient.Prefixes
import PdaNetClient.TunnelRoutes
import PdaNetClient.Monitor
import PdaNetClient.MonitorVpn
import PdaNetClient.Sweep
import PdaNetClient.Datagram
import PdaNetClient.SessionTable
import PdaNetClient.TcpDescriptor
import PdaNetClient.Descriptors
import PdaNetClient.SessionKeys
import PdaNetClient.SessionLimit
import PdaNetClient.Timeouts
import PdaNetClient.PollTimeout
import PdaNetClient.SocketError
import PdaNetClient.SocketSetup
import PdaNetClient.UnknownSession
import PdaNetClient.OnesComplement
import PdaNetClient.Checksum
import PdaNetClient.ChecksumPieces
import PdaNetClient.Reading
import PdaNetClient.IpPacket
import PdaNetClient.IpAdmission
import PdaNetClient.IpExtension
import PdaNetClient.Ip6Admission
import PdaNetClient.IpEncode
import PdaNetClient.TcpEncode
import PdaNetClient.UdpEncode
import PdaNetClient.TcpOptions
import PdaNetClient.DnsName
import PdaNetClient.DnsMessage
import PdaNetClient.HttpRequest
import PdaNetClient.IcmpEcho
import PdaNetClient.SerialNumber
import PdaNetClient.SerialOrder
import PdaNetClient.BufferSearch
import PdaNetClient.DhcpReply
import PdaNetClient.IcmpChecksum
import PdaNetClient.OwnerLookup
import PdaNetClient.StopRequest
import PdaNetClient.UdpRelay
import PdaNetClient.TcpRelay
import PdaNetClient.IcmpRelay
import PdaNetClient.EventOrder
import PdaNetClient.TcpStates
import PdaNetClient.SessionExpiry
import PdaNetClient.PacketDecode
import PdaNetClient.ClientPacket
import PdaNetClient.TunPackets
import PdaNetClient.TunnelRelay
