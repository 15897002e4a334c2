import WirelessMesh.Haodv.Mgmt

/-!
# The haodv node: `route_dev_rx.c`, `route_dev_tx.c` and `route_node_tx.c`

The handlers for received PDUs and the functions that send them. A handler takes the
task it works on and the PDU its `data` points to. Logging is off, as it is when the
module is loaded: some of the log calls would follow null pointers.
-/

namespace WirelessMesh
namespace Haodv

open Routes

variable (conf : NodeConf) (env : Env)

/-! ## Received RREQ -/

/-- The entry a gateway or the owner of a local subnet creates to answer with. -/
def routeLocal (dev : RouteDev) (destAdd : AodvAddress) (myRoute : MeshRoute) : MeshRoute :=
  { routeNew conf none destAdd .aodv with
    seq := myRoute.seq
    metric := 1
    dev := some dev }

def routeRefresh (route : MeshRoute) : MeshRoute :=
  { route with
    lifetime := env.now + activeRouteTimeout
    routeValid := true
    routeSeqValid := true }

/-- The new entry of `__request_should_be_reply`; neither the allocation nor
`myRoute` is checked. -/
def createLocal (dev : RouteDev) (destAdd : AodvAddress) (myRoute : Option ℕ)
    (routes : RouteTable) : Option RouteTable := do
  let p ← myRoute
  let my ← routes.get? p
  if env.mem .dstRoute then
    return routes.push (routeRefresh env (routeLocal conf dev destAdd my))
  else none

def requestShouldBeReply (dev : RouteDev) (request : AodvPduRequest) (myRoute : Option ℕ)
    (routes : RouteTable) : Option (RouteTable × Bool) :=
  let destAdd : AodvAddress := ⟨request.dstIp, request.dstSeq⟩
  match routeLookup env destAdd.address routes with
  | (routes, dstRoute) =>
    if !conf.checkSubnet destAdd.address then
      if conf.supportGateway then
        match dstRoute with
        | none => do
            let routes ← createLocal conf env dev destAdd myRoute routes
            return (routes, true)
        | some (p, _) => some (routes.modify p (routeRefresh env), true)
      else match dstRoute with
        | some (_, route) =>
            if route.netmask ≠ conf.broadcastAddress then do
              let routes ← createLocal conf env dev destAdd myRoute routes
              return (routes, true)
            else some (routes, false)
        | none => some (routes, false)
    else match dstRoute with
      | some (p, route) =>
          if route.selfRoute then
            if seqLessOrEqual route.seq destAdd.sequence then
              some (routes.modify p fun r => { r with seq := destAdd.sequence + 1 }, true)
            else some (routes, true)
          else some (routes, false)
      | none => some (routes, false)

/-- The RREP of `_dev_send_reply`. -/
def pduReply (src dest : MeshRoute) : AodvPduReply where
  type := rrepMessage
  a := false
  reserved1 := 0
  reserved2 := 0
  metric := dest.metric
  dstIp := dest.address.address
  dstSeq := conf.htonl dest.seq
  srcIp := src.address.address
  lifetime := conf.htonl (if dest.selfRoute then myRouteTimeout else dest.lifetime - env.now)

/-- `_dev_send_reply`: the routes are looked up by the addresses of the datagram, not
by those of the RREQ. -/
def sendReply (dev : RouteDev) (task : PduTask) (node : RouteNode) : Option Done :=
  match routeLookup env task.header.src.address node.routes with
  | (routes, none) => some ⟨ehostunreach, { node with routes := routes }, []⟩
  | (routes, some (_, src)) =>
      match routeLookup env task.header.dest.address routes with
      | (routes, none) => some ⟨ehostunreach, { node with routes := routes }, []⟩
      | (routes, some (_, dest)) =>
          if !env.mem .pdu then some ⟨0, { node with routes := routes }, []⟩
          else do
            let sent ← devUnicast env node.neighs dev src.nextHop netDiameter
              (.reply (pduReply conf env src dest))
            return ⟨0, { node with routes := routes }, sent⟩

/-- What a RREQ does for the route back to its origin: an entry that is there only
gets a new next hop. -/
def reverseRoute (origAdd : AodvAddress) (hop : Option (ℕ × RouteNeigh)) (routes : RouteTable) :
    RouteTable :=
  match routeLookup env origAdd.address routes with
  | (routes, none) => (routeInsert conf env .route hop origAdd .aodv routes).getD routes
  | (routes, some (p, _)) => routes.modify p fun r => { r with nextHop := hop.map Prod.fst }

/-- `_dev_rx_request`: the conversion of the PDU to host order is commented out. -/
def rxRequest (dev : RouteDev) (task : PduTask) (request : AodvPduRequest) (node : RouteNode) :
    Option Done :=
  if task.header.ttl ≤ 1 then some ⟨etimedout, node, []⟩
  else if (floodLookup env request.srcIp request.rreqId node.floods).isSome then
    some ⟨0, node, []⟩
  else do
    let origAdd : AodvAddress := ⟨request.srcIp, request.srcSeq⟩
    let destAdd : AodvAddress := ⟨request.dstIp, request.dstSeq⟩
    let (node, hop) := lastHop conf env task node
    let routes := reverseRoute conf env origAdd hop node.routes
    let request := { request with metric := request.metric + 1 }
    let (floods, _) := floodInsert env origAdd destAdd request.rreqId
      (env.now + pathDiscoveryTime) node.floods
    let (routes, answer) ← requestShouldBeReply conf env dev request node.myRoute routes
    let node := { node with routes := routes, floods := floods }
    if answer then
      let done ← sendReply conf env dev task node
      return ⟨0, done.node, done.sent⟩
    else return ⟨0, node, conf.broadcast (task.header.ttl - 1) (.request request)⟩

/-! ## Received RERR -/

/-- What the loop of `_dev_rx_error` carries: the table, the copies in `errDestAdd`
and their number. -/
structure ErrorScan where
  routes : RouteTable
  errDestAdd : List AodvDest
  numOutgoingRoutes : ℕ

/-- What it writes to an entry it takes: the number received, and then one more if the
entry was valid. -/
def routeReport (seq : U32) (route : MeshRoute) : MeshRoute :=
  let route := { route with seq := seq }
  if route.routeValid then routeExpire env route else route

/-- The loop of `_dev_rx_error`, at the `i`-th listed destination. The next hop of a
learned entry is followed unchecked, and so is the result of the allocation. An entry
is taken when its next hop is not the sender. -/
def rxErrorLoop (neighs : NeighList) (src : U32) : List AodvDest → ℕ → ErrorScan → Option ErrorScan
  | [], _, scan => some scan
  | destAdd :: dests, i, scan =>
      match routeLookup env destAdd.ip scan.routes with
      | (routes, none) => rxErrorLoop neighs src dests (i + 1) { scan with routes := routes }
      | (routes, some (p, route)) =>
          if route.selfRoute then
            rxErrorLoop neighs src dests (i + 1) { scan with routes := routes }
          else do
            let hop ← route.nextHop
            if neighAddress env neighs hop == src then
              rxErrorLoop neighs src dests (i + 1) { scan with routes := routes }
            else if env.mem .errDest then
              rxErrorLoop neighs src dests (i + 1)
                { routes := routes.modify p (routeReport env (conf.htonl destAdd.seq))
                  errDestAdd := scan.errDestAdd.set i destAdd
                  numOutgoingRoutes := scan.numOutgoingRoutes + 1 }
            else none

/-- `_dev_rx_error`. The loop that fills the outgoing PDU never moves its source
pointer: every destination is the first entry of `errDestAdd`. -/
def rxError (task : PduTask) (errpdu : AodvPduError) (node : RouteNode) : Option Done :=
  let count := errpdu.dstCount.toNat
  if count = 0 then some ⟨0, node, []⟩
  else do
    let scan ← rxErrorLoop conf env node.neighs task.header.src.address (errpdu.dests.take count) 0
      ⟨node.routes, List.replicate count ⟨0, 0⟩, 0⟩
    let node := { node with routes := scan.routes }
    if scan.numOutgoingRoutes = 0 then return ⟨0, node, []⟩
    else if !env.mem .pdu then return ⟨enomem, node, []⟩
    else
      let out : AodvPduError :=
        { type := rerrMessage, n := false, reserved := 0,
          dstCount := BitVec.ofNat 8 scan.numOutgoingRoutes,
          dests := List.replicate scan.numOutgoingRoutes (scan.errDestAdd.headD ⟨0, 0⟩) }
      return ⟨0, node, conf.broadcast netDiameter (.error out)⟩

/-! ## Received HELLO and RREP -/

def neighborDelay : U32 := helloInterval * (1 + allowedHelloLoss) + 100

/-- `_dev_rx_hello`: a neighbour that was just inserted also gets its hardware
address. -/
def rxHello (dev : RouteDev) (task : PduTask) (reply : AodvPduReply) (node : RouteNode) :
    Option Done :=
  match neighLookup task node.neighs, lastHop conf env task node with
  | _, (node, none) => some ⟨-1, node, []⟩
  | known, (node, some (p, neigh)) => do
      let neigh := match known with
        | some _ => neigh
        | none => { neigh with myHwAddr := task.srcHwAddr, dev := some dev }
      let timers := timerDelete .neighbor 0 node.timers
      let timers := timerInsert conf env neigh.address .neighbor neighborDelay timers
      let neigh := { neigh with lifetime := reply.lifetime + env.now + 20 }
      let routes ← neighUpdateRoute conf env (p, neigh) reply node.routes
      return ⟨0, { node with
        routes := routes, neighs := node.neighs.modify p fun _ => neigh, timers := timers }, []⟩

/-- `_dev_rx_reply`. The address of the destination is taken for a pointer to it. -/
def rxReply (dev : RouteDev) (task : PduTask) (reply : AodvPduReply) (node : RouteNode) :
    Option Done :=
  let reply :=
    { reply with dstSeq := conf.htonl reply.dstSeq, lifetime := conf.htonl reply.lifetime }
  if reply.srcIp == reply.dstIp && task.header.src.address == reply.srcIp then do
    let done ← rxHello conf env dev task reply node
    return { done with ret := 0 }
  else do
    let node := { node with timers := timerDelete .resendRreq 0 node.timers }
    let reply := { reply with metric := reply.metric + 1 }
    let (node, hop) := lastHop conf env task node
    let destAdd ← env.memory reply.dstIp
    let (routes, _) ← routeUpdate conf env destAdd hop reply.metric node.routes
    let (routes, found) := routeLookup env reply.srcIp routes
    let node := { node with routes := routes }
    match found with
    | none => return ⟨0, node, []⟩
    | some (_, route) =>
        if route.selfRoute then return ⟨0, node, []⟩
        else
          let reply :=
            { reply with dstSeq := conf.htonl reply.dstSeq, lifetime := conf.htonl reply.lifetime }
          match route.dev, route.nextHop with
          | some out, some p =>
              let sent ← devUnicast env node.neighs out (some p) netDiameter (.reply reply)
              return ⟨0, node, sent⟩
          | _, _ => return ⟨0, node, []⟩

/-! ## Sending RREQ, HELLO and RERR -/

def routeBump (route : MeshRoute) : MeshRoute :=
  { route with reqId := route.reqId + 1, seq := route.seq + 1 }

/-- The PDU of `_dev_send_request`, from the entry for the destination and the own one. -/
def pduRequest (dev : RouteDev) (dest : AodvAddress) (dst : Option (ℕ × MeshRoute))
    (own : MeshRoute) : AodvPduRequest where
  type := rreqMessage
  j := false
  r := false
  g := true
  d := false
  u := dst.isNone
  reserved := 0
  secondReserved := 0
  metric := 0
  rreqId := conf.htonl (own.reqId + 1)
  dstIp := dest.address
  dstSeq := conf.htonl ((dst.map fun c => c.2.seq).getD 0)
  srcIp := dev.address.address
  srcSeq := conf.htonl (own.seq + 1)

def resendDelay (retries : U16) : U32 :=
  (2 ^^^ (rreqRetries.zeroExtend 32 - retries.zeroExtend 32)) * netTraversalTime

/-- `_dev_send_request`: the PDU gets the request id in network order, the flood list
in host order. -/
def sendRequest (dev : RouteDev) (retry : RouteTask) (node : RouteNode) : Done :=
  if (timerLookup retry.id .resendRreq node.timers).isSome then ⟨0, node, []⟩
  else if retry.retries ≤ 0 then ⟨0, node, []⟩
  else if !env.mem .pdu then ⟨enomem, node, []⟩
  else
    match routeLookup env retry.dest.address node.routes with
    | (routes, dst) =>
      match routeLookup env dev.address.address routes with
      | (routes, none) => ⟨ehostunreach, { node with routes := routes }, []⟩
      | (routes, some (p, own)) =>
          let node := { node with routes := routes.modify p routeBump }
          let (floods, res) := floodInsert env dev.address retry.dest (own.reqId + 1)
            (env.now + pathDiscoveryTime) node.floods
          if res < 0 then ⟨enomem, node, []⟩
          else
            let timer :=
              { retry with
                time := env.now + resendDelay retry.retries, retries := retry.retries - 1 }
            ⟨0, { node with floods := floods, timers := timerEnqueue timer node.timers },
              conf.devBroadcast dev netDiameter (.request (pduRequest conf dev retry.dest dst own))⟩

def sendHello (node : RouteNode) : Option Done :=
  if node.routes.cells.isEmpty then some ⟨0, node, []⟩
  else if !env.mem .pdu then some ⟨0, node, []⟩
  else do
    let p ← node.myRoute
    let my ← node.routes.get? p
    let reply : AodvPduReply :=
      { type := rrepMessage, a := false, reserved1 := 0, reserved2 := 0, metric := 0,
        dstIp := conf.address.address, dstSeq := conf.htonl my.seq,
        srcIp := conf.address.address, lifetime := conf.htonl myRouteTimeout }
    let timers := timerInsert conf env conf.address .hello helloInterval node.timers
    return ⟨0, { node with timers := timers }, conf.broadcast 1 (.reply reply)⟩

def routeThrough (p : ℕ) (route : MeshRoute) : Bool :=
  route.nextHop == some p && !route.selfRoute

/-- What `_node_send_error` does to an entry: one that is not valid stays as it is. -/
def routeBreak (p : ℕ) (route : MeshRoute) : MeshRoute :=
  if routeThrough p route && route.routeValid then routeExpire env route else route

def sendError (p : ℕ) (routes : RouteTable) : RouteTable × List Frame :=
  let broken := routes.cells.filter fun c => routeThrough p c.2
  if broken.length = 0 then (routes, [])
  else if !env.mem (.errPdu p) then (routes, [])
  else
    let errpdu : AodvPduError :=
      { type := rerrMessage, n := false, reserved := 0, dstCount := BitVec.ofNat 8 broken.length,
        dests := broken.map fun c => ⟨c.2.address.address, conf.htonl c.2.seq⟩ }
    (routes.map fun _ => routeBreak env p, conf.broadcast netDiameter (.error errpdu))

/-- Whether `_neigh_delete` drops the neighbour; a null address stands for all. -/
def neighDoomed (address : Option AodvAddress) (neigh : RouteNeigh) : Bool :=
  match address with
  | none => true
  | some a => neigh.address.address == a.address && timeBefore neigh.lifetime env.now

/-- One neighbour dropped by `_neigh_delete`. The lookup matters for the entries it
ages. -/
def neighDrop (c : ℕ × RouteNeigh) (node : RouteNode) : RouteNode × List Frame :=
  let routes := (routeLookup env c.2.address.address node.routes).1
  let (routes, sent) := sendError conf env c.1 routes
  ({ node with
      routes := routes
      neighs := node.neighs.erase c.1
      timers := timerDelete .neighbor 0 node.timers }, sent)

/-- The loop of `_neigh_delete` over the list as it was. -/
def neighDeleteLoop (address : Option AodvAddress) : List (ℕ × RouteNeigh) → RouteNode →
    RouteNode × List Frame
  | [], node => (node, [])
  | c :: cs, node =>
      if neighDoomed env address c.2 then
        let (node, sent) := neighDrop conf env c node
        let (node, sent') := neighDeleteLoop address cs node
        (node, sent ++ sent')
      else neighDeleteLoop address cs node

/-- `_neigh_delete`, from `route_neigh.c`. -/
def neighDelete (address : Option AodvAddress) (node : RouteNode) : Done :=
  let (node', sent) := neighDeleteLoop conf env address node.neighs.cells node
  ⟨node.neighs.cells.length - node'.neighs.cells.length, node', sent⟩

end Haodv
end WirelessMesh
