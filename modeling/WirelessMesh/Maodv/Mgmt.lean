import WirelessMesh.Maodv.Engine

/-!
# The maodv route engine: `route_mgmt_ops.c`

Route table, neighbour list, timer queue and flood list. A function returns
`none` where the C code follows a pointer that is null or has been freed.
Arming the kernel timer, locking and logging leave no trace here.
-/

namespace WirelessMesh
namespace Maodv

open Routes

variable (conf : EngineConf) (env : Env)

/-! ## Routes -/

/-- `_route_expire`: without a device it only logs. -/
def routeExpire (route : MeshRoute) : MeshRoute :=
  match route.dev with
  | none => route
  | some _ =>
      { route with
        lifetime := env.now + deletePeriod
        seq := route.seq + 1
        routeValid := false }

/-- What `_engine_route_find` does to every entry it passes. -/
def ageRoute (route : MeshRoute) : MeshRoute :=
  if timeBefore route.lifetime env.now && !route.selfRoute && route.routeValid then
    routeExpire env route
  else route

def routeFind (destIp : U32) (routes : RouteTable) : RouteTable × Option (ℕ × MeshRoute) :=
  let routes' := routes.walk (ageRoute env) fun route => route.ip == destIp
  (routes', routes'.find? fun route => route.ip == destIp)

/-- The entry `_engine_route_create` links at the head of the table. -/
def routeNew (ip : U32) : MeshRoute where
  ip := ip
  netmask := conf.broadcastIp
  metric := 0
  nextHop := ip
  seq := 0
  rreqId := 0
  lifetime := env.stale.lifetime
  dev := none
  routeValid := false
  routeSeqValid := false
  selfRoute := false

/-- `_engine_route_delete`: unlinks the first entry for `targetIp`. -/
def routeDelete (targetIp : U32) (routes : RouteTable) : RouteTable :=
  match routes.find? fun route => route.ip == targetIp with
  | some (p, _) => routes.erase p
  | none => routes

/-- The values `_engine_route_update` writes into an accepted entry. -/
def routeAccept (nextHopIp : U32) (metric : U8) (seq : U32) (route : MeshRoute) : MeshRoute :=
  { route with
    seq := seq
    nextHop := nextHopIp
    metric := metric
    routeValid := true
    routeSeqValid := true
    lifetime := env.now + activeRouteTimeout }

/-! ## Neighbours -/

def neighFind (targetIp : U32) (neighs : HeapList RouteNeigh) : Option (ℕ × RouteNeigh) :=
  neighs.find? fun neigh => neigh.ip == targetIp

def neighValid (targetIp : U32) (neighs : HeapList RouteNeigh) : Bool :=
  match neighFind targetIp neighs with
  | some (_, neigh) => neigh.validLink && timeBefore env.now neigh.lifetime
  | none => false

/-- `_engine_neigh_insert` together with the device its one caller fills in. -/
def neighInsert (ip : U32) (dev : Option RouteDev) (neighs : HeapList RouteNeigh) :
    Option (HeapList RouteNeigh) :=
  if (neighFind ip neighs).isSome then none
  else if env.mem .neigh then some (neighs.push ⟨ip, 0, dev, true⟩)
  else none

/-! ## Timers -/

def timerEnqueue (timer : RouteTask) (timers : List RouteTask) : List RouteTask :=
  if timers.any fun task => task.type == timer.type && task.id == timer.id then timers
  else timer :: timers

def timerInsert (type ip delay : U32) (timers : List RouteTask) : List RouteTask × ℤ :=
  if env.mem .timer then
    (timerEnqueue
      { type := type, id := ip, time := env.now + delay, dstIp := ip, srcIp := ip, dev := none,
        ttl := 0, retries := 0, data := .none } timers, 0)
  else (timers, enomem)

def resendDelay (retries : U8) : U32 :=
  (2 ^^^ (rreqRetries.zeroExtend 32 - retries.zeroExtend 32)) * netTraversalTime

def timerInsertRequest (rreq : AodvPduRequest) (retries : U8) (timers : List RouteTask) :
    List RouteTask × ℤ :=
  if env.mem .timer then
    (timerEnqueue
      { type := taskResendRreq, id := rreq.dstIp, time := env.now + resendDelay retries,
        dstIp := rreq.dstIp, srcIp := rreq.srcIp, dev := none, ttl := 30,
        retries := retries.zeroExtend 16, data := .none } timers, 0)
  else (timers, enomem)

def timerFind (id type : U32) (timers : List RouteTask) : Option RouteTask :=
  timers.find? fun task => task.id == id && task.type == type

def timerDelete (type id : U32) (timers : List RouteTask) : List RouteTask :=
  timers.filter fun task => !(task.id == id && task.type == type)

/-! ## Floods -/

/-- `_route_flood_find`: gives up at the first expired record. -/
def floodFind (srcIp id : U32) : List RouteFlood → Option RouteFlood
  | [] => none
  | flood :: floods =>
      if timeBefore flood.lifetime env.now then none
      else if srcIp == flood.srcIp && id == flood.id then some flood
      else floodFind srcIp id floods

def floodInsert (srcIp dstIp id lifetime : U32) (floods : List RouteFlood) :
    List RouteFlood × ℤ :=
  if floods.any fun flood => flood.srcIp == srcIp && flood.id == id then (floods, eexist)
  else if env.mem .flood then (⟨srcIp, dstIp, id, lifetime⟩ :: floods, 0)
  else (floods, enomem)

/-! ## Updating a route -/

def routeUpdate (ip nextHopIp : U32) (metric : U8) (seq : U32) (e : RouteEngine) :
    RouteEngine × ℤ :=
  match routeFind env ip e.routes with
  | (routes, found) =>
    if !neighValid env nextHopIp e.neighs then ({ e with routes := routes }, 0)
    else match found with
      | some (p, route) =>
          if seqGreater route.seq seq then ({ e with routes := routes }, 0)
          else if route.routeValid && seq == route.seq && route.metric ≤ metric then
            ({ e with routes := routes }, 0)
          else
            ({ e with routes := routes.modify p (routeAccept env nextHopIp metric seq) }, 0)
      | none =>
          if env.mem .route then
            let route := { routeNew conf env ip with dev := conf.devLookupByIp ip }
            ({ e with routes := routes.push (routeAccept env nextHopIp metric seq route) }, 0)
          else ({ e with routes := routes }, enomem)

/-- The fields `_engine_neigh_update_route` writes; `find_metric` is always one. -/
def routeHello (dev : Option RouteDev) (ip : U32) (reply : AodvPduReply) (route : MeshRoute) :
    MeshRoute :=
  { route with
    lifetime := env.now + reply.lifetime
    dev := dev
    nextHop := ip
    routeSeqValid := true
    routeValid := true
    seq := reply.dstSeq
    metric := 1 }

/-- `_engine_neigh_update_route`: the result of `route_insert` is not checked. -/
def neighUpdateRoute (neigh : RouteNeigh) (reply : AodvPduReply) (routes : RouteTable) :
    Option RouteTable :=
  match routeFind env neigh.ip routes with
  | (routes, some (p, _)) => some (routes.modify p (routeHello env neigh.dev neigh.ip reply))
  | (routes, none) =>
      if env.mem .route then
        some (routes.push (routeHello env neigh.dev neigh.ip reply (routeNew conf env neigh.ip)))
      else none

end Maodv
end WirelessMesh
