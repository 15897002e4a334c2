import WirelessMesh.Aodv.Engine

/-!
# The aodv module: its threads

`aodv_task.c`, `aodv_timer_queue.c`, `aodv_netfilter.c` and `aodv_init.c`. The
datagrams a handler sends pass the output hook like any other packet, and are
outgoing packets of their own here.
-/

namespace WirelessMesh
namespace Aodv

open Routes
open Maodv (EngineConf Env RouteDev RouteTask Frame RouteTable MeshRoute routeNew routeStale
  timerInsert ipTask validProtocolPdu)

variable (conf : EngineConf) (env : Env)

def routeFlush (routes : RouteTable) : RouteTable :=
  (routes.filter fun _ route => !routeStale env route || route.routeValid).map
    fun _ route => if routeStale env route then routeExpire env route else route

def floodFlush (a : State) : State × ℤ :=
  let floods := a.floods.filter fun flood => !timeBefore flood.lifetime env.now
  let timers := (timerInsert env taskCleanup conf.myIp helloInterval a.timers).1
  ({ a with floods := floods, timers := timers }, a.floods.length - floods.length)

/-- One turn of `aodv_kthread`'s switch. -/
def handleTask (task : RouteTask) (a : State) : Option Done :=
  if task.type = taskRreq then
    match task.data with
    | .request request => pduRequestRx conf env task request a
    | _ => none
  else if task.type = taskRrep then
    match task.data with
    | .reply reply => pduReplyRx conf env task reply a
    | _ => none
  else if task.type = taskRrepAck then some ⟨1, a, [], []⟩
  else if task.type = taskRerr then
    match task.data with
    | .error errpdu => pduErrorRx env task errpdu a
    | _ => none
  else if task.type = taskCleanup then
    let (a, _) := floodFlush conf env a
    some ⟨0, { a with routes := routeFlush env a.routes }, [], []⟩
  else if task.type = taskHello then pduHelloSend conf env a
  else if task.type = taskNeighbor then neighDelete conf env task.srcIp a
  else if task.type = taskRouteCleanup then
    some ⟨0, { a with routes := routeFlush env a.routes }, [], []⟩
  else if task.type = taskResendRreq then some (pduRequestResendTtl conf env task a)
  else some ⟨0, a, [], []⟩

/-- `aodv_kthread` works on the head of the queue and unlinks it afterwards. -/
def kthread (a : State) : Option Done :=
  match a.tasks with
  | [] => some ⟨0, a, [], []⟩
  | task :: _ => do
      let done ← handleTask conf env task a
      return { done with state := { done.state with tasks := done.state.tasks.tail } }

/-- `__aodv_timer_queue_signal`: due timers, in list order, become tasks. -/
def timerQueueSignal (a : State) : State :=
  { a with
    timers := a.timers.filter fun task => !timeBeforeEq task.time env.now
    tasks := a.tasks ++ a.timers.filter fun task => timeBeforeEq task.time env.now }

/-- `__aodv_packet_in` and `aodv_task_insert` -/
def packetIn (dev : RouteDev) (frame : Frame) (a : State) : State :=
  if validProtocolPdu frame.pdu && env.mem .task && env.mem .pdu then
    { a with tasks := a.tasks ++ [ipTask env dev frame] }
  else a

inductive NfAnswer where
  | accept
  | queue
  deriving DecidableEq, Repr

/-- `__aodv_packet_tx` for a packet to `daddr`. -/
def packetTx (daddr : U32) (a : State) : NfAnswer × Done :=
  if daddr = conf.broadcastIp then (.accept, ⟨0, a, [], []⟩)
  else if conf.supportGateway && !conf.checkSubnet daddr then (.accept, ⟨0, a, [], []⟩)
  else match routeFind env daddr a.routes with
    | (routes, none) => (.queue, pduRequestCreate conf env daddr { a with routes := routes })
    | (routes, some (p, route)) =>
        if !route.routeValid then
          (.queue, pduRequestCreate conf env daddr { a with routes := routes })
        else if route.selfRoute then (.accept, ⟨0, { a with routes := routes }, [], []⟩)
        else
          (.accept, ⟨0, { a with routes := routes.modify p fun r =>
            { r with lifetime := env.now + activeRouteTimeout } }, [], []⟩)

inductive Event where
  | output (packet : IpqElement) (room : Bool)
  | input (dev : RouteDev) (frame : Frame)
  | signal
  | work

/-- An outgoing packet that is answered NF_QUEUE goes to `ipq_enqueue`. -/
def step (a : State) : Event → Option Done
  | .output packet room =>
      match packetTx conf env packet.daddr a with
      | (.accept, done) => some done
      | (.queue, done) => some { done with state := { done.state with
          queue := (ipqEnqueue room packet done.state.queue).1 } }
  | .input dev frame => some ⟨0, packetIn env dev frame a, [], []⟩
  | .signal => some ⟨0, timerQueueSignal env a, [], []⟩
  | .work => kthread conf env a

/-! ## Starting up -/

/-- `__create_aodv_dev`: the device's self route, which becomes `myRoute`. -/
def insertAodvDev (dev : RouteDev) (s : EngineConf × State) : EngineConf × State :=
  let (conf, a) := s
  let route :=
    { routeNew conf env dev.ip with
      selfRoute := true, seq := 1, rreqId := 1, metric := 0, nextHop := dev.ip, lifetime := -1,
      routeValid := true, routeSeqValid := true, dev := some dev }
  ({ conf with devs := dev :: conf.devs },
    { a with routes := a.routes.push route, myRoute := a.routes.next })

/-- `aodv_init`: the local subnet's self route, the devices, the periodic timers. -/
def aodvInit (supportGateway : Bool) (localIp localMask : U32) (devs : List RouteDev)
    (maxlen : ℕ) : EngineConf × State :=
  let conf : EngineConf :=
    { supportGateway := supportGateway, broadcastIp := BitVec.allOnes 32, myIp := localIp,
      devs := [] }
  let route :=
    { routeNew conf env localIp with
      routeValid := true, routeSeqValid := true, netmask := localMask, selfRoute := true,
      metric := 1, seq := 1, rreqId := 1 }
  let a : State :=
    { routes := HeapList.empty.push route, myRoute := 0, neighs := .empty, timers := [],
      floods := [], tasks := [], queue := ⟨[], maxlen, false, false⟩ }
  let (conf, a) := devs.foldl (fun s dev => insertAodvDev env dev s) (conf, a)
  let timers := (timerInsert env taskHello conf.myIp helloInterval a.timers).1
  let timers := (timerInsert env taskCleanup conf.myIp helloInterval timers).1
  (conf, { a with timers := timers })

end Aodv
end WirelessMesh
