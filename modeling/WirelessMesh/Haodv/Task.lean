import WirelessMesh.Haodv.Proto
import WirelessMesh.Lib.Runs

/-!
# The haodv node: its threads

`route_task.c`, `route_init.c` and the device side of `ip_dev.c`: datagrams and due
timers become tasks at the tail of the queue, the kernel thread takes them from the
head, and outgoing packets ask for a route from their own context.
-/

namespace WirelessMesh
namespace Haodv

open Routes

variable (conf : NodeConf) (env : Env)

/-! ## Periodic cleanup -/

def routeStale (route : MeshRoute) : Bool :=
  timeBefore route.lifetime env.now && !route.selfRoute

/-- `__aodv_route_flush`: a stale route is expired if it is valid and unlinked if not. -/
def routeFlush (routes : RouteTable) : RouteTable :=
  (routes.filter fun _ route => !routeStale env route || route.routeValid).map
    fun _ route => if routeStale env route then routeExpire env route else route

def floodFlush (node : RouteNode) : RouteNode :=
  { node with
    floods := node.floods.filter fun flood => !timeBefore flood.lifetime env.now
    timers := timerInsert conf env conf.address .cleanup helloInterval node.timers }

/-! ## The kernel thread -/

/-- The PDU side of `aodv_kthread`'s switch. The subtype of a queued task is the type
of its PDU; following any other payload has no meaning here. -/
def handlePdu (task : PduTask) (node : RouteNode) : Option Done := do
  let dev ← task.header.dev
  match task.header.subType, task.data with
  | .rreq, .request request => rxRequest conf env dev task request node
  | .rrep, .reply reply => rxReply conf env dev task reply node
  | .rrepAck, _ => some ⟨1, node, []⟩
  | .rerr, .error errpdu => rxError conf env task errpdu node
  | .rreq, _ => none
  | .rrep, _ => none
  | .rerr, _ => none
  | _, _ => some ⟨0, node, []⟩

def handleMgmt (task : RouteTask) (node : RouteNode) : Option Done :=
  match task.subType with
  | .cleanup =>
      let node := floodFlush conf env node
      some ⟨0, { node with routes := routeFlush env node.routes }, []⟩
  | .hello => sendHello conf env node
  | .neighbor => some (neighDelete conf env (some task.src) node)
  | .routeCleanup => some ⟨0, { node with routes := routeFlush env node.routes }, []⟩
  | .resendRreq =>
      match task.dev with
      | some dev => some (sendRequest conf env dev task node)
      | none => some ⟨0, node, []⟩
  | _ => some ⟨0, node, []⟩

def handleTask (task : Task) (node : RouteNode) : Option Done :=
  match task with
  | .pdu task => handlePdu conf env task node
  | .mgmt task => handleMgmt conf env task node

/-- `aodv_kthread`: unlinks the head of the queue and works on it. -/
def kthread (node : RouteNode) : Option Done :=
  match node.tasks with
  | [] => some ⟨0, node, []⟩
  | task :: tasks => handleTask conf env task { node with tasks := tasks }

/-- `__route_timer_queue_signal`: due timers, in list order, become tasks. -/
def timerQueueSignal (node : RouteNode) : RouteNode :=
  { node with
    timers := node.timers.filter fun task => !timeBeforeEq task.time env.now
    tasks := node.tasks ++
      (node.timers.filter fun task => timeBeforeEq task.time env.now).map .mgmt }

/-! ## Devices -/

structure Datagram where
  hwAddr : HwAddr
  saddr : U32
  daddr : U32
  ttl : U8
  pdu : Pdu
  deriving DecidableEq, Repr

def pduSubtype : Pdu → Option TaskSubtype
  | .none => none
  | .request _ => some .rreq
  | .reply _ => some .rrep
  | .error _ => some .rerr
  | .replyAck => some .rrepAck

/-- `_valid_protocol_pdu`, for payloads that have the length of their structure. -/
def validProtocolPdu : Pdu → Bool
  | .none => false
  | .error errpdu => errpdu.dests.length == errpdu.dstCount.toNat
  | _ => true

/-- `__ip_task_insert` -/
def ipTask (dev : RouteDev) (subType : TaskSubtype) (d : Datagram) : PduTask where
  header :=
    { type := .pdu, subType := subType, id := 0, dest := ⟨d.daddr, 0⟩, src := ⟨d.saddr, 0⟩,
      ttl := d.ttl, retries := 0, time := 0, dev := some dev }
  srcHwAddr := d.hwAddr
  data := d.pdu

/-- `_ip_packet_input`: a datagram from the hardware address of a neighbour also
restarts a timer. -/
def ipPacketInput (dev : RouteDev) (d : Datagram) (node : RouteNode) : RouteNode :=
  if !validProtocolPdu d.pdu then node
  else
    let timers := match neighLookupMac d.hwAddr node.neighs with
      | some (_, neigh) =>
          timerInsert conf env neigh.address .neighbor neighborDelay
            (timerDelete .neighbor 0 node.timers)
      | none => node.timers
    let node := { node with timers := timers }
    match pduSubtype d.pdu with
    | some subType =>
        if env.mem .task && env.mem .pdu then
          { node with tasks := node.tasks ++ [.pdu (ipTask dev subType d)] }
        else node
    | none => node

/-- The task `_ip_packet_output` makes for a packet without a route; its id stays zero
and the sequence number of `dest` is whatever was on the stack. -/
def retryTask (dev : RouteDev) (daddr : U32) : RouteTask where
  type := .mgmt
  subType := .resendRreq
  id := 0
  dest := ⟨daddr, env.stale⟩
  src := dev.address
  ttl := 30
  retries := rreqRetries
  time := 0
  dev := some dev

/-- The start of a route discovery; the allocation of the task is not checked. -/
def askForRoute (dev : RouteDev) (daddr : U32) (node : RouteNode) : Option Done :=
  if env.mem .task then some (sendRequest conf env dev (retryTask env dev daddr) node) else none

def routeUse (route : MeshRoute) : MeshRoute :=
  { route with lifetime := env.now + activeRouteTimeout }

/-- `_ip_packet_output` for a packet to `daddr` that leaves by `dev`. -/
def ipPacketOutput (dev : RouteDev) (daddr : U32) (node : RouteNode) : Option Done :=
  if daddr = conf.broadcastAddress then some ⟨0, node, []⟩
  else if conf.supportGateway && !conf.checkSubnet daddr then some ⟨0, node, []⟩
  else match routeLookup env daddr node.routes with
    | (routes, none) => askForRoute conf env dev daddr { node with routes := routes }
    | (routes, some (p, route)) =>
        if !route.routeValid then askForRoute conf env dev daddr { node with routes := routes }
        else if route.selfRoute then some ⟨0, { node with routes := routes }, []⟩
        else some ⟨0, { node with routes := routes.modify p (routeUse env) }, []⟩

/-! ## The node as a machine -/

inductive NodeEvent where
  | input (dev : RouteDev) (d : Datagram)
  | output (dev : RouteDev) (daddr : U32)
  | signal
  | thread
  deriving DecidableEq, Repr

def handleEvent (node : RouteNode) : NodeEvent → Option Done
  | .input dev d => some ⟨0, ipPacketInput conf env dev d node, []⟩
  | .output dev daddr => ipPacketOutput conf env dev daddr node
  | .signal => some ⟨0, timerQueueSignal env node, []⟩
  | .thread => kthread conf env node

/-- One event in its surroundings. A machine that faulted takes no further step. -/
def step (e : Env × NodeEvent) (node : RouteNode) : Option RouteNode :=
  (handleEvent conf e.1 node e.2).map Done.node

/-! ## Starting up -/

/-- `node_init` with the local subnet `localIp/localMask`: the first self route. -/
def nodeInit (order : ByteOrder) (supportGateway : Bool) (localIp localMask : U32) :
    NodeConf × RouteNode :=
  let conf : NodeConf :=
    { order := order, supportGateway := supportGateway, broadcastAddress := BitVec.allOnes 32,
      address := ⟨localIp, 0⟩, devs := [] }
  let route :=
    { routeNew conf none ⟨localIp, 0⟩ .aodv with
      routeValid := true, routeSeqValid := true, netmask := localMask, selfRoute := true,
      metric := 1, seq := 1, reqId := 1 }
  (conf, { routes := HeapList.empty.push route, myRoute := some 0, neighs := .empty, timers := [],
           floods := [], tasks := [] })

def routeDevice (dev : RouteDev) : MeshRoute :=
  { routeNew conf none dev.address .kernel with
    selfRoute := true, seq := 1, reqId := 1, lifetime := -1, routeValid := true,
    routeSeqValid := true, dev := some dev }

/-- `route_register_device`: the device's self route, and with the first device the
two periodic timers. -/
def routeRegisterDevice (dev : RouteDev) (s : NodeConf × RouteNode) : NodeConf × RouteNode :=
  let (conf, node) := s
  let timers := if conf.devs.isEmpty then
      timerInsert conf env conf.address .cleanup helloInterval
        (timerInsert conf env conf.address .hello helloInterval node.timers)
    else node.timers
  ({ conf with devs := dev :: conf.devs },
    { node with routes := node.routes.push (routeDevice conf dev), timers := timers })

/-- Loading the module with one local subnet and registering the devices. -/
def boot (order : ByteOrder) (supportGateway : Bool) (localIp localMask : U32)
    (devs : List RouteDev) : NodeConf × RouteNode :=
  devs.foldl (fun s dev => routeRegisterDevice env dev s)
    (nodeInit order supportGateway localIp localMask)

/-! ## Traffic on one subnet, for worked examples -/

/-- A moment at which no allocation fails, with nothing readable at an address that
came out of a PDU. -/
def Env.plenty (now : U32) : Env where
  now := now
  mem := fun _ => true
  memory := fun _ => none
  freed := fun _ => 0
  stale := 0

def lanDev (ip : U32) : RouteDev := ⟨0, ⟨ip, 0⟩, 0xffffff00⟩

/-- What `src` broadcasts; its hardware address is made from its address. -/
def lanDatagram (src : U32) (pdu : Pdu) : Datagram :=
  ⟨src.zeroExtend 48, src, 0xffffffff, netDiameter, pdu⟩

/-- The HELLO of the node at `ip`, as it lies in the memory of its receiver. -/
def helloPdu (order : ByteOrder) (ip seq : U32) : AodvPduReply :=
  { type := rrepMessage, a := false, reserved1 := 0, reserved2 := 0, metric := 0, dstIp := ip,
    dstSeq := ByteOrder.hton32 order seq, srcIp := ip,
    lifetime := ByteOrder.hton32 order myRouteTimeout }

def requestPdu (order : ByteOrder) (srcIp srcSeq reqId dstIp : U32) : AodvPduRequest :=
  { type := rreqMessage, j := false, r := false, g := true, d := false, u := true, reserved := 0,
    secondReserved := 0, metric := 0, rreqId := ByteOrder.hton32 order reqId, dstIp := dstIp,
    dstSeq := 0, srcIp := srcIp, srcSeq := ByteOrder.hton32 order srcSeq }

def lanNode (order : ByteOrder) (supportGateway : Bool) : NodeConf × RouteNode :=
  boot (.plenty 0) order supportGateway 0x0a000100 0xffffff00 [lanDev 0x0a000001]

def heard (now src : U32) (pdu : Pdu) : List (Env × NodeEvent) :=
  [(.plenty now, .input (lanDev 0x0a000001) (lanDatagram src pdu)), (.plenty now, .thread)]

end Haodv
end WirelessMesh
