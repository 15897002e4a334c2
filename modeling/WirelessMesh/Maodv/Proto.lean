import WirelessMesh.Maodv.Mgmt

/-!
# The maodv route engine: `route_proto_ops.c`

The handlers for received PDUs and the functions that send them. A handler takes
the task it works on and the PDU its `data` points to.
-/

namespace WirelessMesh
namespace Maodv

open Routes

variable (conf : EngineConf) (env : Env)

/-! ## Received HELLO and RREP -/

/-- `_engine_rx_hello`. `timer_delete` is declared with the type first, and is
called here with the address first. -/
def rxHello (packet : RouteTask) (reply : AodvPduReply) (e : RouteEngine) : Option Done :=
  let found := match neighFind reply.dstIp e.neighs with
    | some (p, neigh) => some (p, neigh, e.neighs)
    | none => (neighInsert env reply.dstIp packet.dev e.neighs).map fun neighs =>
        (e.neighs.next, ⟨reply.dstIp, 0, packet.dev, true⟩, neighs)
  match found with
  | none => some ⟨-1, e, []⟩
  | some (p, neigh, neighs) => do
      let timers := timerDelete neigh.ip taskNeighbor e.timers
      let delay := helloInterval * (1 + allowedHelloLoss) + 100
      let timers := (timerInsert env taskNeighbor neigh.ip delay timers).1
      let neighs := neighs.modify p fun n => { n with lifetime := reply.lifetime + env.now + 20 }
      let routes ← neighUpdateRoute conf env neigh reply e.routes
      return ⟨0, { e with routes := routes, neighs := neighs, timers := timers }, []⟩

/-- `__check_reply`: a RREP whose two addresses agree is a HELLO. -/
def checkReply (packet : RouteTask) (reply : AodvPduReply) (e : RouteEngine) :
    Option (RouteEngine × Bool) :=
  if reply.srcIp == reply.dstIp then do
    let done ← rxHello conf env packet reply e
    return (done.engine, false)
  else if !neighValid env packet.srcIp e.neighs then some (e, false)
  else some ({ e with timers := timerDelete reply.dstIp taskResendRreq e.timers }, true)

def rxReply (packet : RouteTask) (reply : AodvPduReply) (e : RouteEngine) : Option Done := do
  let (e, ok) ← checkReply conf env packet reply e
  if !ok then return ⟨0, e, []⟩
  let reply := { reply with metric := reply.metric + 1 }
  let _ ← packet.dev
  let (e, _) := routeUpdate conf env reply.dstIp packet.srcIp reply.metric reply.dstSeq e
  let (routes, found) := routeFind env reply.srcIp e.routes
  let e := { e with routes := routes }
  match found with
  | none => return ⟨0, e, []⟩
  | some (_, route) =>
      if route.selfRoute then return ⟨0, e, []⟩
      else return ⟨0, e, conf.unicast route.nextHop netDiameter (.reply reply)⟩

/-! ## Received RERR -/

/-- The loop of `_engine_rx_error` over the listed destinations. A match writes
the sequence number, allocates, and then writes through `lastEerrRoute`, which
is null. -/
def rxErrorLoop (srcIp : U32) : List AodvDest → ℕ → RouteTable → Option RouteTable
  | [], _, routes => some routes
  | errDest :: dests, i, routes =>
      match routeFind env errDest.ip routes with
      | (routes, some (p, route)) =>
          if !route.selfRoute && route.nextHop == srcIp then
            if env.mem (.errRoute i) then none
            else some (routes.modify p fun r => { r with seq := errDest.seq })
          else rxErrorLoop srcIp dests (i + 1) routes
      | (routes, none) => rxErrorLoop srcIp dests (i + 1) routes

def rxError (packet : RouteTask) (errpdu : AodvPduError) (e : RouteEngine) : Option Done := do
  let routes ← rxErrorLoop env packet.srcIp (errpdu.dests.take errpdu.dstCount.toNat) 0 e.routes
  return ⟨0, { e with routes := routes }, []⟩

/-! ## Received RREQ -/

/-- `__check_request`: the route lookup matters for the entries it ages. -/
def checkRequest (request : AodvPduRequest) (lastHopIp : U32) (e : RouteEngine) :
    RouteEngine × Bool :=
  if (floodFind env request.srcIp request.rreqId e.floods).isSome then (e, false)
  else
    let (routes, _) := routeFind env request.srcIp e.routes
    ({ e with routes := routes }, neighValid env lastHopIp e.neighs)

/-- The entry a gateway or the owner of a local subnet creates to answer with. -/
def routeLocal (dstIp : U32) (myRoute : MeshRoute) : MeshRoute :=
  { routeNew conf env dstIp with
    seq := myRoute.seq
    nextHop := dstIp
    metric := 1
    dev := myRoute.dev }

def routeRefresh (route : MeshRoute) : MeshRoute :=
  { route with
    lifetime := env.now + activeRouteTimeout
    routeValid := true
    routeSeqValid := true }

def requestShouldBeReply (request : AodvPduRequest) (e : RouteEngine) :
    Option (RouteEngine × Bool) :=
  match routeFind env request.dstIp e.routes with
  | (routes, found) =>
    let answer (routes : RouteTable) := some ({ e with routes := routes }, true)
    let create := do
      let myRoute ← routes.get? e.myRoute
      if env.mem .dstRoute then
        answer (routes.push (routeRefresh env (routeLocal conf env request.dstIp myRoute)))
      else none
    if !conf.checkSubnet request.dstIp then
      if conf.supportGateway then
        match found with
        | none => create
        | some (p, _) => answer (routes.modify p (routeRefresh env))
      else match found with
        | some (_, dstRoute) =>
            if dstRoute.netmask ≠ conf.broadcastIp then create
            else some ({ e with routes := routes }, false)
        | none => some ({ e with routes := routes }, false)
    else match found with
      | some (p, dstRoute) =>
          if dstRoute.selfRoute then
            if seqLessOrEqual dstRoute.seq request.dstSeq then
              answer (routes.modify p fun r => { r with seq := request.dstSeq + 1 })
            else answer routes
          else some ({ e with routes := routes }, false)
      | none => some ({ e with routes := routes }, false)

/-- `__pdu_reply_send`: the `a` bit is whatever the buffer held. -/
def pduReply (src dest : MeshRoute) : AodvPduReply where
  type := rrepMessage
  a := env.stale.a
  reserved1 := 0
  reserved2 := 0
  metric := dest.metric
  dstIp := dest.ip
  dstSeq := dest.seq
  srcIp := src.ip
  lifetime := if dest.selfRoute then myRouteTimeout else dest.lifetime - env.now

def sendReply (srcIp dstIp : U32) (e : RouteEngine) : Done :=
  match routeFind env srcIp e.routes with
  | (routes, none) => ⟨ehostunreach, { e with routes := routes }, []⟩
  | (routes, some (_, src)) =>
      match routeFind env dstIp routes with
      | (routes, none) => ⟨ehostunreach, { e with routes := routes }, []⟩
      | (routes, some (_, dest)) =>
          let sent := if env.mem .pdu then
              conf.unicast src.nextHop netDiameter (.reply (pduReply env src dest))
            else []
          ⟨0, { e with routes := routes }, sent⟩

def rxRequest (packet : RouteTask) (request : AodvPduRequest) (e : RouteEngine) : Option Done :=
  if packet.ttl ≤ 1 then some ⟨etimedout, e, []⟩
  else
    let (e, ok) := checkRequest env request packet.srcIp e
    if !ok then some ⟨1, e, []⟩
    else do
      let request := { request with metric := request.metric + 1 }
      let _ ← packet.dev
      let (e, _) := routeUpdate conf env request.srcIp packet.srcIp request.metric request.srcSeq e
      let (floods, _) := floodInsert env request.srcIp request.dstIp request.rreqId
        (env.now + pathDiscoveryTime) e.floods
      let e := { e with floods := floods }
      let (e, answered) ← requestShouldBeReply conf env request e
      if answered then
        let done := sendReply conf env request.srcIp request.dstIp e
        return ⟨0, done.engine, done.sent⟩
      else return ⟨0, e, conf.broadcast (packet.ttl - 1) (.request request)⟩

/-! ## Sending RREQ, HELLO and RERR -/

def routeBump (route : MeshRoute) : MeshRoute :=
  { route with rreqId := route.rreqId + 1, seq := route.seq + 1 }

/-- The common part of `_engine_send_request` and `_engine_resend_request`, once
the PDU is allocated: they differ in the source address, in the `d` bit and in
the number of retries left. -/
def issueRequest (srcIp destIp : U32) (d : Bool) (retries : U8) (e : RouteEngine) : Done :=
  match routeFind env destIp e.routes with
  | (routes, dst) =>
    match routeFind env srcIp routes with
    | (routes, none) => ⟨ehostunreach, { e with routes := routes }, []⟩
    | (routes, some (p, route)) =>
        let routes := routes.modify p routeBump
        let request : AodvPduRequest :=
          { type := rreqMessage, j := false, r := false, g := true, d := d, u := dst.isNone,
            reserved := 0, secondReserved := 0, metric := 0, rreqId := route.rreqId + 1,
            dstIp := destIp, dstSeq := (dst.map fun c => c.2.seq).getD 0, srcIp := srcIp,
            srcSeq := route.seq + 1 }
        let (floods, res) := floodInsert env srcIp destIp request.rreqId
          (env.now + pathDiscoveryTime) e.floods
        if res < 0 then ⟨enomem, { e with routes := routes, floods := floods }, []⟩
        else
          let timers := (timerInsertRequest env request retries e.timers).1
          ⟨0, { e with routes := routes, floods := floods, timers := timers },
            conf.broadcast netDiameter (.request request)⟩

def sendRequest (destIp : U32) (e : RouteEngine) : Done :=
  if (timerFind destIp taskResendRreq e.timers).isSome then ⟨0, e, []⟩
  else if !env.mem .pdu then ⟨enomem, e, []⟩
  else issueRequest conf env conf.myIp destIp true (rreqRetries.truncate 8) e

def resendRequest (packet : RouteTask) (e : RouteEngine) : Done :=
  if packet.retries ≤ 0 then ⟨0, e, []⟩
  else if !env.mem .pdu then ⟨0, e, []⟩
  else issueRequest conf env packet.srcIp packet.dstIp false ((packet.retries - 1).truncate 8) e

/-- `_engine_send_hello`: three fields of the PDU are never set. -/
def sendHello (e : RouteEngine) : Option Done :=
  if !env.mem .pdu then some ⟨0, e, []⟩
  else do
    let myRoute ← e.routes.get? e.myRoute
    let reply : AodvPduReply :=
      { type := rrepMessage, a := env.stale.a, reserved1 := 0, reserved2 := env.stale.reserved2,
        metric := env.stale.metric, dstIp := myRoute.ip, dstSeq := myRoute.seq,
        srcIp := myRoute.ip, lifetime := myRouteTimeout }
    let timers := (timerInsert env taskHello conf.myIp helloInterval e.timers).1
    return ⟨0, { e with timers := timers }, conf.broadcast 1 (.reply reply)⟩

/-- The walk of `_engine_send_error`: every learned route through `brkDstIp` is
listed and, if valid, expired, until an allocation fails. The list grows at its
head. -/
def errorCells (brkDstIp : U32) : List (ℕ × MeshRoute) → List AodvDest → ℕ →
    List (ℕ × MeshRoute) × Option (List AodvDest)
  | [], dests, _ => ([], some dests)
  | c :: cs, dests, i =>
      if c.2.nextHop == brkDstIp && !c.2.selfRoute then
        if env.mem (.errRoute i) then
          let (cs', res) := errorCells brkDstIp cs (⟨c.2.ip, c.2.seq⟩ :: dests) (i + 1)
          ((c.1, if c.2.routeValid then routeExpire env c.2 else c.2) :: cs', res)
        else (c :: cs, none)
      else
        let (cs', res) := errorCells brkDstIp cs dests i
        (c :: cs', res)

theorem errorCells_fst (brkDstIp : U32) (cs : List (ℕ × MeshRoute)) (dests : List AodvDest)
    (i : ℕ) : (errorCells env brkDstIp cs dests i).1.map Prod.fst = cs.map Prod.fst := by
  induction cs generalizing dests i with
  | nil => rfl
  | cons c cs ih =>
      simp only [errorCells]
      split_ifs <;> simp [ih]

def sendError (brkDstIp : U32) (routes : RouteTable) : RouteTable × List Frame :=
  let res := errorCells env brkDstIp routes.cells [] 0
  let routes' := routes.rewrite res.1 (errorCells_fst env brkDstIp routes.cells [] 0)
  match res.2 with
  | none => (routes', [])
  | some [] => (routes', [])
  | some dests =>
      if !env.mem .errPdu then (routes', [])
      else
        let errpdu : AodvPduError :=
          { type := rerrMessage, n := false, reserved := 0, dstCount := BitVec.ofNat 8 dests.length,
            dests := dests }
        (routes', conf.broadcast netDiameter (.error errpdu))

/-- `_engine_neigh_delete`, from `route_mgmt_ops.c`. -/
def neighDelete (ip : U32) (e : RouteEngine) : Option Done :=
  match neighFind ip e.neighs with
  | none => some ⟨enodata, e, []⟩
  | some (p, _) =>
      let timers := timerDelete ip taskNeighbor e.timers
      match routeFind env ip e.routes with
      | (routes, found) =>
        let e := { e with neighs := e.neighs.erase p, timers := timers, routes := routes }
        match found with
        | none => some ⟨0, e, []⟩
        | some (q, route) =>
            if route.nextHop == route.ip then do
              let (routes, sent) := sendError conf env route.ip routes
              let now ← routes.get? q
              if now.routeValid then
                return ⟨0, { e with routes := routes.modify q (routeExpire env) }, sent⟩
              else return ⟨0, { e with routes := routeDelete now.ip routes }, sent⟩
            else some ⟨0, e, []⟩

end Maodv
end WirelessMesh
