import WirelessMesh.Lib.ByteOrder
import WirelessMesh.Lib.HeapList
import WirelessMesh.Routes.Protocol

/-!
# The haodv node: its data

The structures of haodv's `mesh_route.h`. Unlike maodv, haodv keeps the next hop of
a route as a pointer into the neighbour list, so both lists are lists of heap cells
and a next hop is the address of a cell. Freed addresses are not handed out again:
a route that still holds one is told apart from a route to its successor.

Nothing is converted on the way into a PDU here. A PDU holds the words as the host
has them in memory, and the code swaps some of them and not others.
-/

namespace WirelessMesh
namespace Haodv

open Routes

abbrev HwAddr := BitVec 48

/-- `aodv_address_t`. Two of them are compared by their address alone. -/
structure AodvAddress where
  address : U32
  sequence : U32
  deriving DecidableEq, Repr

/-- A device is passed by value, as it is not changed once it is registered; `index`
tells devices with the same settings apart. -/
structure RouteDev where
  index : ℕ
  address : AodvAddress
  netmask : U32
  deriving DecidableEq, Repr

inductive RouteType where
  | kernel
  | aodv
  deriving DecidableEq, Repr

structure MeshRoute where
  address : AodvAddress
  netmask : U32
  metric : U8
  nextHop : Option ℕ
  hopCount : U8
  seq : U32
  oldSeq : U32
  reqId : U32
  lifetime : U32
  dev : Option RouteDev
  routeValid : Bool
  routeSeqValid : Bool
  selfRoute : Bool
  type : RouteType
  deriving DecidableEq, Repr

structure RouteNeigh where
  address : AodvAddress
  myHwAddr : HwAddr
  lifetime : U32
  dev : Option RouteDev
  deriving DecidableEq, Repr

inductive TaskType where
  | pdu
  | mgmt
  deriving DecidableEq, Repr

inductive TaskSubtype where
  | rreq
  | rrep
  | rerr
  | rrepAck
  | resendRreq
  | hello
  | neighbor
  | cleanup
  | routeCleanup
  deriving DecidableEq, Repr

structure RouteTask where
  type : TaskType
  subType : TaskSubtype
  id : U32
  dest : AodvAddress
  src : AodvAddress
  ttl : U8
  retries : U16
  time : U32
  dev : Option RouteDev
  deriving DecidableEq, Repr

structure PduTask where
  header : RouteTask
  srcHwAddr : HwAddr
  data : Pdu
  deriving DecidableEq, Repr

inductive Task where
  | pdu (task : PduTask)
  | mgmt (task : RouteTask)
  deriving DecidableEq, Repr

structure RouteFlood where
  reqId : U32
  orig : AodvAddress
  dest : AodvAddress
  lifetime : U32
  deriving DecidableEq, Repr

structure NodeConf where
  order : ByteOrder
  supportGateway : Bool
  broadcastAddress : U32
  address : AodvAddress
  devs : List RouteDev
  deriving DecidableEq, Repr

abbrev RouteTable := HeapList MeshRoute

abbrev NeighList := HeapList RouteNeigh

structure RouteNode where
  routes : RouteTable
  myRoute : Option ℕ
  neighs : NeighList
  timers : List RouteTask
  floods : List RouteFlood
  tasks : List Task

/-- The `kmalloc` calls one handler can make, each at most once. The buffer for a
RERR is asked for once for each neighbour that is given up. -/
inductive AllocSite where
  | neigh
  | neighRoute
  | route
  | dstRoute
  | timer
  | flood
  | pdu
  | errDest
  | errPdu (neigh : ℕ)
  | task
  deriving DecidableEq, Repr

/-- What a handler gets from its surroundings: the clock, which stands still during
a handler, the outcome of every allocation, what lies at an arbitrary address of the
kernel (`none` where reading faults), what a freed neighbour still reads as its
address, and the uninitialised word of the stack that ends up in a task. -/
structure Env where
  now : U32
  mem : AllocSite → Bool
  memory : U32 → Option AodvAddress
  freed : ℕ → U32
  stale : U32

structure Frame where
  dev : RouteDev
  daddr : U32
  ttl : U8
  pdu : Pdu
  deriving DecidableEq, Repr

/-- A handler's return value, the node it leaves and the datagrams it sent. -/
structure Done where
  ret : ℤ
  node : RouteNode
  sent : List Frame

def enomem : ℤ := -12
def eexist : ℤ := -17
def etimedout : ℤ := -110
def ehostunreach : ℤ := -113

/-! ## Devices -/

namespace NodeConf

variable (conf : NodeConf)

def htonl (x : U32) : U32 := ByteOrder.hton32 conf.order x

def checkSubnet (dest : U32) : Bool :=
  conf.devs.any fun dev => dev.address.address &&& dev.netmask == dev.netmask &&& dest

def devBroadcast (dev : RouteDev) (ttl : U8) (pdu : Pdu) : List Frame :=
  if ttl < 1 then [] else [⟨dev, conf.broadcastAddress, ttl, pdu⟩]

def broadcast (ttl : U8) (pdu : Pdu) : List Frame :=
  conf.devs.flatMap fun dev => conf.devBroadcast dev ttl pdu

end NodeConf

/-- The address read through a pointer to a neighbour, which may have been freed. -/
def neighAddress (env : Env) (neighs : NeighList) (neigh : ℕ) : U32 :=
  match neighs.get? neigh with
  | some n => n.address.address
  | none => env.freed neigh

/-- `_ip_dev_unicast`: a null neighbour is followed before anything is checked. -/
def devUnicast (env : Env) (neighs : NeighList) (dev : RouteDev) (neigh : Option ℕ) (ttl : U8)
    (pdu : Pdu) : Option (List Frame) := do
  let p ← neigh
  return if ttl = 0 then [] else [⟨dev, neighAddress env neighs p, ttl, pdu⟩]

end Haodv
end WirelessMesh
