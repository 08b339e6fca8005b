import Vdp.Arp
import Vdp.ArpExchange
import Vdp.ArpReply
import Vdp.Channel
import Vdp.Dispatch
import Vdp.DpdkForward
import Vdp.DpdkLoop
import Vdp.Fdpass
import Vdp.FdpassRuns
import Vdp.FiveTuple
import Vdp.FreeBulk
import Vdp.Icmp
import Vdp.IpAddr
import Vdp.IpcQueue
import Vdp.IpcQueuePointers
import Vdp.IpcQueueSpsc
import Vdp.Lib.Custody
import Vdp.Mbuf
import Vdp.MbufBulk
import Vdp.MbufData
import Vdp.MbufPool
import Vdp.MbufRange
import Vdp.MbufSlices
import Vdp.MemEnpsf
import Vdp.MemEnpsfControl
import Vdp.MemEnpsfDevice
import Vdp.MemEnpsfMapping
import Vdp.Memring
import Vdp.Mux
import Vdp.MuxClients
import Vdp.MuxMessages
import Vdp.ParseIp
import Vdp.PktHdr
import Vdp.Port
import Vdp.PortConfigure
import Vdp.Registration
import Vdp.Ring
import Vdp.Startup
import Vdp.StartupPort
import Vdp.System
import Vdp.SystemAlone
import Vdp.SystemCustody
import Vdp.SystemRuns
