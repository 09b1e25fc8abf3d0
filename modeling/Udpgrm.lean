import Udpgrm.Accounting
import Udpgrm.ActivationRuns
import Udpgrm.Aes128
import Udpgrm.Announcements
import Udpgrm.Capacity
import Udpgrm.CbpfPrograms
import Udpgrm.CbpfSafety
import Udpgrm.Classification
import Udpgrm.Completeness
import Udpgrm.Config
import Udpgrm.ConnectionIds
import Udpgrm.ControlPlane
import Udpgrm.CookieRouting
import Udpgrm.CookieTable
import Udpgrm.CriticalGauge
import Udpgrm.DaemonLife
import Udpgrm.Delivery
import Udpgrm.Descriptors
import Udpgrm.FlowClock
import Udpgrm.FlowHash
import Udpgrm.FlowKey
import Udpgrm.Getsockopt
import Udpgrm.GroupNames
import Udpgrm.Handover
import Udpgrm.Housing
import Udpgrm.Isolation
import Udpgrm.LostUpdate
import Udpgrm.OneCreator
import Udpgrm.OptionBuffers
import Udpgrm.PacketLayout
import Udpgrm.QuicDelivery
import Udpgrm.QuicLength
import Udpgrm.Registration
import Udpgrm.Restart
import Udpgrm.RingLog
import Udpgrm.Rollback
import Udpgrm.Rollout
import Udpgrm.Sha256
import Udpgrm.SingleApp
import Udpgrm.Sockets
import Udpgrm.Stickiness
import Udpgrm.TubularMemory
