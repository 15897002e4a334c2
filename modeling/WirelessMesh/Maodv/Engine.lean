import WirelessMesh.Lib.HeapList
import WirelessMesh.Routes.Protocol

/-!
# The maodv route engine: its data

The structures of `mesh_route.h`. The route table and the neighbour list are
lists of heap cells, because `engine->myRoute` and the handlers' locals are
pointers into them; timers, floods and tasks are never held by address across a
call. What is fixed once the devices are registered is `EngineConf`.
-/

namespace WirelessMesh
namespace Maodv

open Routes

structure RouteDev where
  ip : U32
  netmask : U32
  deriving DecidableEq, Repr

structure MeshRoute where
  ip : U32
  netmask : U32
  metric : U8
  nextHop : U32
  seq : U32
  rreqId : U32
  lifetime : U32
  dev : Option RouteDev
  routeValid : Bool
  routeSeqValid : Bool
  selfRoute : Bool
  deriving DecidableEq, Repr

structure RouteNeigh where
  ip : U32
  lifetime : U32
  dev : Option RouteDev
  validLink : Bool
  deriving DecidableEq, Repr

/-- The task type is the machine word of the C enumeration: `timer_delete` is
called with an address in its place. -/
structure RouteTask where
  type : U32
  id : U32
  time : U32
  dstIp : U32
  srcIp : U32
  dev : Option RouteDev
  ttl : U8
  retries : U16
  data : Pdu
  deriving DecidableEq, Repr

structure RouteFlood where
  srcIp : U32
  dstIp : U32
  id : U32
  lifetime : U32
  deriving DecidableEq, Repr

structure EngineConf where
  supportGateway : Bool
  broadcastIp : U32
  myIp : U32
  devs : List RouteDev
  deriving DecidableEq, Repr

abbrev RouteTable := HeapList MeshRoute

structure RouteEngine where
  routes : RouteTable
  myRoute : ℕ
  neighs : HeapList RouteNeigh
  timers : List RouteTask
  floods : List RouteFlood
  tasks : List RouteTask

inductive AllocSite where
  | route
  | dstRoute
  | neigh
  | timer
  | flood
  | pdu
  | errRoute (index : ℕ)
  | errPdu
  | task
  deriving DecidableEq, Repr

/-- What `kmalloc` leaves behind in the fields the code never sets. -/
structure Stale where
  id : U32
  lifetime : U32
  a : Bool
  reserved2 : U8
  metric : U8
  deriving DecidableEq, Repr

/-- What a handler gets from its surroundings: the clock, which stands still
during a handler, and the outcome of every allocation. -/
structure Env where
  now : U32
  mem : AllocSite → Bool
  stale : Stale

/-- A datagram given to a device: `srcIp` is the device's own address. -/
structure Frame where
  srcIp : U32
  dstIp : U32
  ttl : U8
  pdu : Pdu
  deriving DecidableEq, Repr

/-- A handler's return value, the engine it leaves and the datagrams it sent. -/
structure Done where
  ret : ℤ
  engine : RouteEngine
  sent : List Frame

def enomem : ℤ := -12
def eexist : ℤ := -17
def enodata : ℤ := -61
def etimedout : ℤ := -110
def ehostunreach : ℤ := -113

namespace EngineConf

variable (conf : EngineConf)

def inSubnet (dev : RouteDev) (destIp : U32) : Bool :=
  dev.ip &&& dev.netmask == dev.netmask &&& destIp

/-- `_engine_find_dev_by_ip` -/
def devLookupByIp (destIp : U32) : Option RouteDev :=
  conf.devs.find? fun dev => inSubnet dev destIp

def checkSubnet (destIp : U32) : Bool :=
  conf.devs.any fun dev => inSubnet dev destIp

/-- `_engine_unicast`: one copy through every device whose subnet matches. -/
def unicast (destIp : U32) (ttl : U8) (pdu : Pdu) : List Frame :=
  if ttl = 0 then []
  else (conf.devs.filter fun dev => inSubnet dev destIp).map fun dev => ⟨dev.ip, destIp, ttl, pdu⟩

def broadcast (ttl : U8) (pdu : Pdu) : List Frame :=
  if ttl < 1 then []
  else conf.devs.map fun dev => ⟨dev.ip, conf.broadcastIp, ttl, pdu⟩

def addrs : List U32 := conf.myIp :: conf.devs.map (·.ip)

variable {conf}

theorem mem_unicast {destIp : U32} {ttl : U8} {pdu : Pdu} {f : Frame}
    (h : f ∈ conf.unicast destIp ttl pdu) : f.pdu = pdu ∧ f.srcIp ∈ conf.addrs := by
  unfold unicast at h
  split_ifs at h
  · simp at h
  · obtain ⟨dev, hdev, rfl⟩ := List.mem_map.mp h
    refine ⟨rfl, List.mem_cons_of_mem _ (List.mem_map_of_mem ?_)⟩
    exact List.mem_of_mem_filter hdev

theorem mem_broadcast {ttl : U8} {pdu : Pdu} {f : Frame}
    (h : f ∈ conf.broadcast ttl pdu) : f.pdu = pdu ∧ f.srcIp ∈ conf.addrs := by
  unfold broadcast at h
  split_ifs at h
  · simp at h
  · obtain ⟨dev, hdev, rfl⟩ := List.mem_map.mp h
    exact ⟨rfl, List.mem_cons_of_mem _ (List.mem_map_of_mem hdev)⟩

end EngineConf

end Maodv
end WirelessMesh
