import WirelessMesh.Lib.Runs
import WirelessMesh.Maodv.Proto

/-!
# The maodv route engine: its threads

`route_task.c`, `route_init.c` and the device side of `ip_dev.c`: packets and
due timers become tasks at the tail of the queue, the kernel thread works on the
head, and outgoing packets ask for a route from their own context.
-/

namespace WirelessMesh
namespace Maodv

open Routes

variable (conf : EngineConf) (env : Env)

/-! ## Periodic cleanup -/

def routeStale (route : MeshRoute) : Bool :=
  timeBefore route.lifetime env.now && !route.selfRoute

/-- `__aodv_route_flush`: a stale route is expired first and unlinked when it is
met stale again. -/
def routeFlush (routes : RouteTable) : RouteTable :=
  (routes.filter fun _ route => !routeStale env route || route.routeValid).map
    fun _ route => if routeStale env route then routeExpire env route else route

def floodFlush (e : RouteEngine) : RouteEngine × ℤ :=
  let floods := e.floods.filter fun flood => !timeBefore flood.lifetime env.now
  let timers := (timerInsert env taskCleanup conf.myIp helloInterval e.timers).1
  ({ e with floods := floods, timers := timers }, e.floods.length - floods.length)

/-! ## The kernel thread -/

/-- One turn of `aodv_kthread`'s switch. A task whose payload is not of its type
is never queued; following it has no meaning here. -/
def handleTask (task : RouteTask) (e : RouteEngine) : Option Done :=
  if task.type = taskRreq then
    match task.data with
    | .request request => rxRequest conf env task request e
    | _ => none
  else if task.type = taskRrep then
    match task.data with
    | .reply reply => rxReply conf env task reply e
    | _ => none
  else if task.type = taskRrepAck then some ⟨1, e, []⟩
  else if task.type = taskRerr then
    match task.data with
    | .error errpdu => rxError env task errpdu e
    | _ => none
  else if task.type = taskCleanup then
    let (e, _) := floodFlush conf env e
    some ⟨0, { e with routes := routeFlush env e.routes }, []⟩
  else if task.type = taskHello then sendHello conf env e
  else if task.type = taskNeighbor then neighDelete conf env task.srcIp e
  else if task.type = taskRouteCleanup then
    some ⟨0, { e with routes := routeFlush env e.routes }, []⟩
  else if task.type = taskResendRreq then some (resendRequest conf env task e)
  else some ⟨0, e, []⟩

/-- `aodv_kthread` works on the head of the queue and unlinks it afterwards. -/
def kthread (e : RouteEngine) : Option Done :=
  match e.tasks with
  | [] => some ⟨0, e, []⟩
  | task :: _ => do
      let done ← handleTask conf env task e
      return { done with engine := { done.engine with tasks := done.engine.tasks.tail } }

/-- `__route_timer_queue_signal`: due timers, in list order, become tasks. -/
def timerQueueSignal (e : RouteEngine) : RouteEngine :=
  { e with
    timers := e.timers.filter fun task => !timeBeforeEq task.time env.now
    tasks := e.tasks ++ e.timers.filter fun task => timeBeforeEq task.time env.now }

/-! ## Devices -/

def pduType : Pdu → U32
  | .none => 0
  | .request _ => taskRreq
  | .reply _ => taskRrep
  | .error _ => taskRerr
  | .replyAck => taskRrepAck

/-- `_valid_protocol_pdu`, for payloads that have the length of their structure. -/
def validProtocolPdu : Pdu → Bool
  | .none => false
  | .error errpdu => errpdu.dests.length == errpdu.dstCount.toNat
  | _ => true

/-- `__ip_task_insert` -/
def ipTask (dev : RouteDev) (frame : Frame) : RouteTask where
  type := pduType frame.pdu
  id := env.stale.id
  time := env.now
  dstIp := frame.dstIp
  srcIp := frame.srcIp
  dev := some dev
  ttl := frame.ttl
  retries := 0
  data := frame.pdu

/-- `_ip_packet_input` for a datagram that arrived on `dev`. -/
def ipPacketInput (dev : RouteDev) (frame : Frame) (e : RouteEngine) : RouteEngine :=
  if validProtocolPdu frame.pdu && env.mem .task && env.mem .pdu then
    { e with tasks := e.tasks ++ [ipTask env dev frame] }
  else e

inductive RouteOp where
  | forward
  | queue
  | deny
  deriving DecidableEq, Repr

/-- `_ip_packet_output` for an outgoing packet to `daddr`. -/
def ipPacketOutput (daddr : U32) (e : RouteEngine) : RouteOp × Done :=
  if daddr = conf.broadcastIp then (.forward, ⟨0, e, []⟩)
  else if conf.supportGateway && !conf.checkSubnet daddr then (.forward, ⟨0, e, []⟩)
  else match routeFind env daddr e.routes with
    | (routes, none) => (.queue, sendRequest conf env daddr { e with routes := routes })
    | (routes, some (p, route)) =>
        if !route.routeValid then
          (.queue, sendRequest conf env daddr { e with routes := routes })
        else if route.selfRoute then (.forward, ⟨0, { e with routes := routes }, []⟩)
        else
          (.forward, ⟨0, { e with routes := routes.modify p fun r =>
            { r with lifetime := env.now + activeRouteTimeout } }, []⟩)

/-- The two contexts in which the engine works: its thread, and the sender of a
packet. -/
inductive EngineEvent where
  | task (task : RouteTask)
  | output (daddr : U32)

def handleEvent (e : RouteEngine) : EngineEvent → Option Done
  | .task task => handleTask conf env task e
  | .output daddr => some (ipPacketOutput conf env daddr e).2

/-! ## Starting up -/

/-- `engine_init` with the local subnet `localIp/localMask`: the first self route. -/
def engineInit (supportGateway : Bool) (localIp localMask : U32) : EngineConf × RouteEngine :=
  let conf : EngineConf :=
    { supportGateway := supportGateway, broadcastIp := BitVec.allOnes 32, myIp := localIp,
      devs := [] }
  let route :=
    { routeNew conf env localIp with
      routeValid := true, routeSeqValid := true, netmask := localMask, selfRoute := true,
      metric := 1, seq := 1, rreqId := 1 }
  (conf, { routes := HeapList.empty.push route, myRoute := 0, neighs := .empty, timers := [],
           floods := [], tasks := [] })

/-- `route_register_device`: the device's self route, and with the first device
the two periodic timers. -/
def routeRegisterDevice (dev : RouteDev) (s : EngineConf × RouteEngine) :
    EngineConf × RouteEngine :=
  let (conf, e) := s
  let route :=
    { routeNew conf env dev.ip with
      selfRoute := true, seq := 1, rreqId := 1, metric := 0, nextHop := dev.ip, lifetime := -1,
      routeValid := true, routeSeqValid := true, dev := some dev }
  let timers := if conf.devs.isEmpty then
      let timers := (timerInsert env taskHello conf.myIp helloInterval e.timers).1
      (timerInsert env taskCleanup conf.myIp helloInterval timers).1
    else e.timers
  ({ conf with devs := dev :: conf.devs },
    { e with routes := e.routes.push route, timers := timers })

/-- Loading the module with one local subnet and registering the devices. -/
def boot (supportGateway : Bool) (localIp localMask : U32) (devs : List RouteDev) :
    EngineConf × RouteEngine :=
  devs.foldl (fun s dev => routeRegisterDevice env dev s)
    (engineInit env supportGateway localIp localMask)

def Env.plenty (now : U32) : Env where
  now := now
  mem := fun _ => true
  stale := ⟨0, 0, false, 0, 0⟩

def Env.exhausted (now : U32) : Env where
  now := now
  mem := fun _ => false
  stale := ⟨0, 0, false, 0, 0⟩

/-! ## Traffic on one subnet, for worked examples -/

def helloPdu (ip seq : U32) : AodvPduReply :=
  { type := rrepMessage, a := false, reserved1 := 0, reserved2 := 0, metric := 0, dstIp := ip,
    dstSeq := seq, srcIp := ip, lifetime := myRouteTimeout }

def replyPdu (dstIp dstSeq srcIp : U32) : AodvPduReply :=
  { helloPdu dstIp dstSeq with srcIp := srcIp }

def requestPdu (srcIp srcSeq rreqId dstIp dstSeq : U32) : AodvPduRequest :=
  { type := rreqMessage, j := false, r := false, g := true, d := true, u := true, reserved := 0,
    secondReserved := 0, metric := 0, rreqId := rreqId, dstIp := dstIp, dstSeq := dstSeq,
    srcIp := srcIp, srcSeq := srcSeq }

def lanDev (ip : U32) : RouteDev := ⟨ip, 0xffffff00⟩

/-- The task for a PDU that `srcIp` broadcast and `dev` received at `now`. -/
def lanTask (now : U32) (dev : RouteDev) (srcIp : U32) (pdu : Pdu) : RouteTask :=
  ipTask (.plenty now) dev ⟨srcIp, 0xffffffff, netDiameter, pdu⟩

/-- A node as the shipped start script loads it: the local subnet names the
address of the only device. -/
def lanNode (supportGateway : Bool) (ip : U32) : EngineConf × RouteEngine :=
  boot (.plenty 0) supportGateway ip 0xffffff00 [lanDev ip]

def taskStep (conf : EngineConf) (task : Env × RouteTask) (e : RouteEngine) : Option RouteEngine :=
  (handleTask conf task.1 task.2 e).map Done.engine

/-- `10.0.0.1` after a HELLO of its neighbour `10.0.0.2` with number 1. -/
def heardNeighbour : Option RouteEngine :=
  Machine.finish (taskStep (lanNode true 0x0a000001).1)
    [(.plenty 100, lanTask 100 (lanDev 0x0a000001) 0x0a000002 (.reply (helloPdu 0x0a000002 1)))]
    (lanNode true 0x0a000001).2

end Maodv
end WirelessMesh
