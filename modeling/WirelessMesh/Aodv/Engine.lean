import WirelessMesh.Aodv.PacketQueue
import WirelessMesh.Maodv.Task

/-!
# The aodv module: routes, neighbours and messages

`aodv_route.c`, `aodv_neigh.c`, `aodv_pdu_request.c` and `aodv_pdu_reply.c`. The
maodv engine grew out of this module and its structures are the same, so they are
shared, as are the functions whose code was not touched: the neighbour list, the
timer queue and the flood list. What differs stands here. Updates of the kernel's
own routing table leave no trace.
-/

namespace WirelessMesh
namespace Aodv

open Routes
open Maodv hiding Done enomem routeExpire ageRoute routeFind routeUpdate neighUpdateRoute rxHello
  checkReply rxReply rxErrorLoop rxError checkRequest requestShouldBeReply sendReply rxRequest
  issueRequest sendHello errorCells errorCells_fst sendError neighDelete routeFlush floodFlush
  handleTask kthread timerQueueSignal boot

/-- The module's state: that of an engine, and the packets that wait for a route. -/
structure State extends RouteEngine where
  queue : IpqQueue

/-- A handler's return value, the state it leaves, the datagrams it sent and the
packets it gave back to netfilter. -/
structure Done where
  ret : ℤ
  state : State
  sent : List Frame
  reinjected : List (IpqElement × Verdict)

variable (conf : EngineConf) (env : Env)

/-! ## Routes -/

def routeExpire (route : MeshRoute) : MeshRoute :=
  { route with
    lifetime := env.now + deletePeriod
    seq := route.seq + 1
    routeValid := false }

def ageRoute (route : MeshRoute) : MeshRoute :=
  if timeBefore route.lifetime env.now && !route.selfRoute && route.routeValid then
    routeExpire env route
  else route

def routeFind (destIp : U32) (routes : RouteTable) : RouteTable × Option (ℕ × MeshRoute) :=
  let routes' := routes.walk (ageRoute env) fun route => route.ip == destIp
  (routes', routes'.find? fun route => route.ip == destIp)

/-- The tests of `aodv_route_update` on what its lookup found. -/
def updateAccepts (nextHopIp : U32) (metric : U8) (seq : U32) (neighs : HeapList RouteNeigh)
    (found : Option (ℕ × MeshRoute)) : Bool :=
  neighValid env nextHopIp neighs &&
    match found with
    | some (_, route) =>
        !seqGreater route.seq seq &&
          !(route.routeValid && (seq == route.seq && decide (route.metric ≤ metric)))
    | none => env.mem .route

/-- `aodv_route_update`: an accepted route releases the packets that waited for it. -/
def routeUpdate (ip nextHopIp : U32) (metric : U8) (seq : U32) (dev : Option RouteDev)
    (a : State) : State × ℤ × List (IpqElement × Verdict) :=
  let (routes, found) := routeFind env ip a.routes
  if updateAccepts env nextHopIp metric seq a.neighs found then
    let accept (route : MeshRoute) :=
      { routeAccept env nextHopIp metric seq route with dev := dev }
    let routes := match found with
      | some (p, _) => routes.modify p accept
      | none => routes.push (accept (routeNew conf env ip))
    let (queue, reinjected) := ipqSendIp ip a.queue
    ({ a with routes := routes, queue := queue }, 0, reinjected)
  else if neighValid env nextHopIp a.neighs && found.isNone then
    ({ a with routes := routes }, enomem, [])
  else ({ a with routes := routes }, 0, [])

/-- `send_message` without a device: the datagram leaves through the device of the
route to `dstIp`. -/
def sendMessage (dstIp : U32) (ttl : U8) (pdu : Pdu) (routes : RouteTable) :
    RouteTable × List Frame :=
  if ttl = 0 then (routes, [])
  else match routeFind env dstIp routes with
    | (routes, none) => (routes, [])
    | (routes, some (_, route)) =>
        match route.dev.bind fun dev => conf.devs.find? fun d => d.ip == dev.ip with
        | none => (routes, [])
        | some dev => (routes, [⟨dev.ip, dstIp, ttl, pdu⟩])

/-! ## HELLO and RREP -/

/-- `aodv_neigh_update_route`: the result of `aodv_route_create` is not checked. -/
def neighUpdateRoute (neigh : RouteNeigh) (reply : AodvPduReply) (routes : RouteTable) :
    Option RouteTable :=
  match routeFind env neigh.ip routes with
  | (routes, some (p, _)) => some (routes.modify p (routeHello env neigh.dev neigh.ip reply))
  | (routes, none) =>
      if env.mem .route then
        some (routes.push (routeHello env neigh.dev neigh.ip reply (routeNew conf env neigh.ip)))
      else none

def recvHello (packet : RouteTask) (reply : AodvPduReply) (a : State) : Option State :=
  let found := match neighFind reply.dstIp a.neighs with
    | some (p, neigh) => some (p, neigh, a.neighs)
    | none => (neighInsert env reply.dstIp packet.dev a.neighs).map fun neighs =>
        (a.neighs.next, ⟨reply.dstIp, 0, packet.dev, true⟩, neighs)
  match found with
  | none => some a
  | some (p, neigh, neighs) => do
      let timers := timerDelete taskNeighbor neigh.ip a.timers
      let delay := helloInterval * (1 + allowedHelloLoss) + 100
      let timers := (timerInsert env taskNeighbor neigh.ip delay timers).1
      let neighs := neighs.modify p fun n => { n with lifetime := reply.lifetime + env.now + 20 }
      let a := { a with neighs := neighs, timers := timers }
      if neigh.validLink then
        let routes ← neighUpdateRoute conf env neigh reply a.routes
        return { a with routes := routes }
      else return a

def checkReply (packet : RouteTask) (reply : AodvPduReply) (a : State) : Option (State × Bool) :=
  if reply.srcIp == reply.dstIp then do
    let a ← recvHello conf env packet reply a
    return (a, false)
  else if !neighValid env packet.srcIp a.neighs then some (a, false)
  else some ({ a with timers := timerDelete taskResendRreq reply.dstIp a.timers }, true)

def pduReplyRx (packet : RouteTask) (reply : AodvPduReply) (a : State) : Option Done := do
  let (a, ok) ← checkReply conf env packet reply a
  if !ok then return ⟨0, a, [], []⟩
  let reply := { reply with metric := reply.metric + 1 }
  let (a, _, reinjected) :=
    routeUpdate conf env reply.dstIp packet.srcIp reply.metric reply.dstSeq packet.dev a
  let (routes, found) := routeFind env reply.srcIp a.routes
  match found with
  | none => return ⟨0, { a with routes := routes }, [], reinjected⟩
  | some (_, route) =>
      if route.selfRoute then return ⟨0, { a with routes := routes }, [], reinjected⟩
      else
        let (routes, sent) := sendMessage conf env route.nextHop netDiameter (.reply reply) routes
        return ⟨0, { a with routes := routes }, sent, reinjected⟩

/-- `aodv_pdu_reply_create` and `__pdu_reply_send` -/
def pduReplyCreate (srcIp dstIp : U32) (routes : RouteTable) : RouteTable × List Frame :=
  match routeFind env srcIp routes with
  | (routes, none) => (routes, [])
  | (routes, some (_, src)) =>
      match routeFind env dstIp routes with
      | (routes, none) => (routes, [])
      | (routes, some (_, dest)) =>
          if env.mem .pdu then
            sendMessage conf env src.nextHop netDiameter (.reply (pduReply env src dest)) routes
          else (routes, [])

def pduHelloSend (a : State) : Option Done :=
  if !env.mem .pdu then some ⟨0, a, [], []⟩
  else do
    let myRoute ← a.routes.get? a.myRoute
    let reply : AodvPduReply :=
      { type := rrepMessage, a := env.stale.a, reserved1 := 0, reserved2 := env.stale.reserved2,
        metric := env.stale.metric, dstIp := myRoute.ip, dstSeq := myRoute.seq,
        srcIp := myRoute.ip, lifetime := myRouteTimeout }
    let timers := (timerInsert env taskHello conf.myIp helloInterval a.timers).1
    return ⟨0, { a with timers := timers }, conf.broadcast 1 (.reply reply), []⟩

/-! ## RERR -/

/-- The loop of `aodv_pdu_error_rx`: a match writes the number, allocates, and then
writes through `lastEerrRoute`, which is null. -/
def errorRxLoop (srcIp : U32) : List AodvDest → ℕ → RouteTable → Option RouteTable
  | [], _, routes => some routes
  | errDest :: dests, i, routes =>
      match routeFind env errDest.ip routes with
      | (routes, some (p, route)) =>
          if !route.selfRoute && route.nextHop == srcIp then
            if env.mem (.errRoute i) then none
            else some (routes.modify p fun r => { r with seq := errDest.seq })
          else errorRxLoop srcIp dests (i + 1) routes
      | (routes, none) => errorRxLoop srcIp dests (i + 1) routes

def pduErrorRx (packet : RouteTask) (errpdu : AodvPduError) (a : State) : Option Done := do
  let routes ← errorRxLoop env packet.srcIp (errpdu.dests.take errpdu.dstCount.toNat) 0 a.routes
  return ⟨0, { a with routes := routes }, [], []⟩

/-- The walk of `aodv_pdu_error_send`: every learned route through `brkDstIp` is
listed and, if valid, expired, until an allocation fails. -/
def errorCells (brkDstIp : U32) : List (ℕ × MeshRoute) → List AodvDest → ℕ →
    List (ℕ × MeshRoute) × Option (List AodvDest)
  | [], dests, _ => ([], some dests)
  | c :: cs, dests, i =>
      if c.2.nextHop == brkDstIp && !c.2.selfRoute then
        if env.mem (.errRoute i) then
          let (cs', res) := errorCells brkDstIp cs (⟨c.2.ip, c.2.seq⟩ :: dests) (i + 1)
          ((c.1, if c.2.routeValid then routeExpire env c.2 else c.2) :: cs', res)
        else (c :: cs, none)
      else
        let (cs', res) := errorCells brkDstIp cs dests i
        (c :: cs', res)

theorem errorCells_fst (brkDstIp : U32) (cs : List (ℕ × MeshRoute)) (dests : List AodvDest)
    (i : ℕ) : (errorCells env brkDstIp cs dests i).1.map Prod.fst = cs.map Prod.fst := by
  induction cs generalizing dests i with
  | nil => rfl
  | cons c cs ih =>
      simp only [errorCells]
      split_ifs <;> simp [ih]

def pduErrorSend (brkDstIp : U32) (routes : RouteTable) : RouteTable × List Frame :=
  let res := errorCells env brkDstIp routes.cells [] 0
  let routes' := routes.rewrite res.1 (errorCells_fst env brkDstIp routes.cells [] 0)
  match res.2 with
  | none => (routes', [])
  | some [] => (routes', [])
  | some dests =>
      if !env.mem .errPdu then (routes', [])
      else
        let errpdu : AodvPduError :=
          { type := rerrMessage, n := false, reserved := 0, dstCount := BitVec.ofNat 8 dests.length,
            dests := dests }
        (routes', conf.broadcast netDiameter (.error errpdu))

def neighDelete (ip : U32) (a : State) : Option Done :=
  match neighFind ip a.neighs with
  | none => some ⟨enodata, a, [], []⟩
  | some (p, _) =>
      let timers := timerDelete taskNeighbor ip a.timers
      match routeFind env ip a.routes with
      | (routes, found) =>
        let a := { a with neighs := a.neighs.erase p, timers := timers, routes := routes }
        match found with
        | none => some ⟨0, a, [], []⟩
        | some (q, route) =>
            if route.nextHop == route.ip then do
              let (routes, sent) := pduErrorSend conf env route.ip routes
              let now ← routes.get? q
              if now.routeValid then
                return ⟨0, { a with routes := routes.modify q (routeExpire env) }, sent, []⟩
              else return ⟨0, { a with routes := routeDelete now.ip routes }, sent, []⟩
            else some ⟨0, a, [], []⟩

/-! ## RREQ -/

def checkRequest (request : AodvPduRequest) (lastHopIp : U32) (a : State) : State × Bool :=
  if (floodFind env request.srcIp request.rreqId a.floods).isSome then (a, false)
  else
    let (routes, _) := routeFind env request.srcIp a.routes
    ({ a with routes := routes }, neighValid env lastHopIp a.neighs)

def pduRequestReply (request : AodvPduRequest) (a : State) : Option (State × Bool) :=
  match routeFind env request.dstIp a.routes with
  | (routes, found) =>
    let answer (routes : RouteTable) := some ({ a with routes := routes }, true)
    let create := do
      let myRoute ← routes.get? a.myRoute
      if env.mem .dstRoute then
        answer (routes.push (routeRefresh env (routeLocal conf env request.dstIp myRoute)))
      else none
    if !conf.checkSubnet request.dstIp then
      if conf.supportGateway then
        match found with
        | none => create
        | some (p, _) => answer (routes.modify p (routeRefresh env))
      else match found with
        | some (_, dstRoute) =>
            if dstRoute.netmask ≠ conf.broadcastIp then create
            else some ({ a with routes := routes }, false)
        | none => some ({ a with routes := routes }, false)
    else match found with
      | some (p, dstRoute) =>
          if dstRoute.selfRoute then
            if seqLessOrEqual dstRoute.seq request.dstSeq then
              answer (routes.modify p fun r => { r with seq := request.dstSeq + 1 })
            else answer routes
          else some ({ a with routes := routes }, false)
      | none => some ({ a with routes := routes }, false)

/-- `aodv_pdu_request_rx`: a request that is not answered is not passed on. -/
def pduRequestRx (packet : RouteTask) (request : AodvPduRequest) (a : State) : Option Done :=
  if packet.ttl ≤ 1 then some ⟨etimedout, a, [], []⟩
  else
    let (a, ok) := checkRequest env request packet.srcIp a
    if !ok then some ⟨1, a, [], []⟩
    else do
      let request := { request with metric := request.metric + 1 }
      let (a, _, reinjected) :=
        routeUpdate conf env request.srcIp packet.srcIp request.metric request.srcSeq packet.dev a
      let (floods, _) := floodInsert env request.srcIp request.dstIp request.rreqId
        (env.now + pathDiscoveryTime) a.floods
      let a := { a with floods := floods }
      let (a, answered) ← pduRequestReply conf env request a
      if answered then
        let (routes, sent) := pduReplyCreate conf env request.srcIp request.dstIp a.routes
        return ⟨0, { a with routes := routes }, sent, reinjected⟩
      else return ⟨0, a, [], reinjected⟩

/-- The common part of `__aodv_pdu_request_create` and `aodv_pdu_request_resend_ttl`,
once the PDU is allocated. -/
def issueRequest (srcIp destIp : U32) (d : Bool) (retries : U8) (a : State) : Done :=
  match routeFind env destIp a.routes with
  | (routes, dst) =>
    match routeFind env srcIp routes with
    | (routes, none) => ⟨ehostunreach, { a with routes := routes }, [], []⟩
    | (routes, some (p, route)) =>
        let routes := routes.modify p routeBump
        let request : AodvPduRequest :=
          { type := rreqMessage, j := false, r := false, g := true, d := d, u := dst.isNone,
            reserved := 0, secondReserved := 0, metric := 0, rreqId := route.rreqId + 1,
            dstIp := destIp, dstSeq := (dst.map fun c => c.2.seq).getD 0, srcIp := srcIp,
            srcSeq := route.seq + 1 }
        let (floods, res) := floodInsert env srcIp destIp request.rreqId
          (env.now + pathDiscoveryTime) a.floods
        if res < 0 then ⟨enomem, { a with routes := routes, floods := floods }, [], []⟩
        else
          let timers := (timerInsertRequest env request retries a.timers).1
          ⟨0, { a with routes := routes, floods := floods, timers := timers },
            conf.broadcast netDiameter (.request request), []⟩

def pduRequestCreate (destIp : U32) (a : State) : Done :=
  if (timerFind destIp taskResendRreq a.timers).isSome then ⟨0, a, [], []⟩
  else if !env.mem .pdu then ⟨enomem, a, [], []⟩
  else issueRequest conf env conf.myIp destIp true (rreqRetries.truncate 8) a

/-- `aodv_pdu_request_resend_ttl`: the last retry gives up the waiting packets. -/
def pduRequestResendTtl (packet : RouteTask) (a : State) : Done :=
  if packet.retries ≤ 0 then
    let (queue, reinjected) := ipqDropIp packet.dstIp a.queue
    ⟨0, { a with queue := queue }, [], reinjected⟩
  else if !env.mem .pdu then ⟨0, a, [], []⟩
  else issueRequest conf env packet.srcIp packet.dstIp false ((packet.retries - 1).truncate 8) a

end Aodv
end WirelessMesh
