import WirelessMesh.Maodv.Freshness
import WirelessMesh.Maodv.SelfRoutes
import WirelessMesh.Maodv.Flood
import WirelessMesh.Maodv.LoopFree
import WirelessMesh.Maodv.HopCount
import WirelessMesh.Maodv.Wire
import WirelessMesh.Maodv.RouteRules
import WirelessMesh.Maodv.RouteErrors
import WirelessMesh.Maodv.HelloTimers
import WirelessMesh.Aodv.NoStranded
import WirelessMesh.Aodv.QueueRuns
import WirelessMesh.Aodv.KernelTimer
import WirelessMesh.Aodv.Discovery
import WirelessMesh.Mesh.FwdCtrl
import WirelessMesh.Mesh.PortTable
import WirelessMesh.Mesh.Portal
import WirelessMesh.Mesh.Budget
import WirelessMesh.Mesh.Dispatch
import WirelessMesh.Mesh.Decision
import WirelessMesh.Mesh.Expiry
import WirelessMesh.Mesh.TableDump
import WirelessMesh.Pcm.Receive
import WirelessMesh.Pcm.Transmit
import WirelessMesh.Haodv.Unique
import WirelessMesh.Haodv.NextHops
import WirelessMesh.Haodv.OwnRequest
import WirelessMesh.Haodv.RouteErrors
import WirelessMesh.Haodv.NeighTimers
import WirelessMesh.Haodv.RouteReplies
import WirelessMesh.Slic.Registry
import WirelessMesh.Slic.ToneZone
import WirelessMesh.Slic.HookFlash
import WirelessMesh.Slic.LineTimers
import WirelessMesh.Slic.Ringing
import WirelessMesh.Slic.Debounce
import WirelessMesh.Slic.CallerId
import WirelessMesh.Slic.Dialing
import WirelessMesh.Slic.ToneStrings
import WirelessMesh.Phy.Start
import WirelessMesh.Aodv.DueTimers
import WirelessMesh.Aodv.InetAddr
import WirelessMesh.Vmac.Tdma
import WirelessMesh.Vmac.AlohaDelivery
import WirelessMesh.Wlan.CcmpChannel
import WirelessMesh.Dsr.CacheRuns
import WirelessMesh.Dsr.Network
