import Doradus.Core.NatExpiry
import Doradus.Dns.DoqRecovery
import Doradus.Dns.QueryRecogniser
import Doradus.Dns.UdpWaiters
import Doradus.Protocol.ChainReconnect
import Doradus.Protocol.H2Bridge
import Doradus.Protocol.HttpForward
import Doradus.Protocol.QuicQueue
import Doradus.Protocol.QuicRoundTrip
import Doradus.Protocol.RecordReads
import Doradus.Protocol.ServerProxyIsolation
import Doradus.Protocol.ServerProxyReaders
import Doradus.Protocol.ShadowsocksrDatagram
import Doradus.Protocol.StreamWrites
import Doradus.Protocol.UotWriter
import Doradus.Runtime.DurableTotals
import Doradus.Runtime.HappyEyeballsErrors
import Doradus.Runtime.MonitorGauges
import Doradus.Runtime.ProxySelector
import Doradus.Runtime.ReloadOrder
import Doradus.Runtime.RequestedClose
import Doradus.Runtime.RouteMeaning
import Doradus.Runtime.Socks5Association
import Doradus.Runtime.Supervisors
import Doradus.Runtime.TunOwner
import Doradus.Runtime.UdpFlowWorker
import Doradus.Runtime.UdpManagerCloses
import Doradus.Runtime.VmessDatagrams
import Doradus.Store.FakeIpBounds
import Doradus.Store.FakeIpReopen
import Doradus.Store.FakeIpScan
import Doradus.Store.RestoreDatabase
import Doradus.Tun.FragmentRoundTrip
import Doradus.Tun.HeaderNormalize
import Doradus.Tun.OutputDelivery
import Doradus.Tun.OutputOrder
import Doradus.Tun.ReassemblySoundness
import Doradus.Tun.SmoltcpDatagram
import Doradus.Tun.SmoltcpPorts
import Doradus.Tun.SmoltcpStream
import Doradus.Tun.UdpSockets
