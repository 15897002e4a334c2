import WirelessMesh.Haodv.Node

/-!
# The haodv node: `route_route.c`, `route_neigh.c` and `route_timers.c`

Route table, neighbour list, timer queue and flood list. A function returns `none`
where the C code follows a null pointer. Arming the kernel timer, resending queued
packets, locking and logging leave no trace here.
-/

namespace WirelessMesh
namespace Haodv

open Routes

variable (conf : NodeConf) (env : Env)

/-! ## Routes -/

/-- `_route_expire`: without a device it only logs. -/
def routeExpire (route : MeshRoute) : MeshRoute :=
  match route.dev with
  | none => route
  | some _ =>
      { route with
        lifetime := env.now + deletePeriod
        seq := route.seq + 1
        routeValid := false
        nextHop := none }

/-- What `_route_lookup` does to every entry it passes. -/
def ageRoute (route : MeshRoute) : MeshRoute :=
  if timeBefore route.lifetime env.now && !route.selfRoute && route.routeValid then
    routeExpire env route
  else route

def routeCompare (address : U32) (route : MeshRoute) : Bool := route.address.address == address

def routeLookup (address : U32) (routes : RouteTable) : RouteTable × Option (ℕ × MeshRoute) :=
  let routes' := routes.walk (ageRoute env) (routeCompare address)
  (routes', routes'.find? (routeCompare address))

/-- The entry `_route_insert` fills in; the next hop comes with what it points to. -/
def routeNew (nextHop : Option (ℕ × RouteNeigh)) (address : AodvAddress) (type : RouteType) :
    MeshRoute where
  address := address
  netmask := conf.broadcastAddress
  metric := 0
  nextHop := nextHop.map Prod.fst
  hopCount := 0
  seq := address.sequence
  oldSeq := 0
  reqId := 0
  lifetime := 0
  dev := nextHop.bind fun hop => hop.2.dev
  routeValid := false
  routeSeqValid := false
  selfRoute := false
  type := type

/-- `_route_insert`: no check for an entry that is there already. -/
def routeInsert (site : AllocSite) (nextHop : Option (ℕ × RouteNeigh)) (address : AodvAddress)
    (type : RouteType) (routes : RouteTable) : Option RouteTable :=
  if env.mem site then some (routes.push (routeNew conf nextHop address type)) else none

/-- The values `_route_update` writes into an accepted entry. -/
def routeAccept (destAdd : AodvAddress) (hop : ℕ × RouteNeigh) (metric : U8) (route : MeshRoute) :
    MeshRoute :=
  { route with
    seq := destAdd.sequence
    nextHop := some hop.1
    metric := metric
    dev := hop.2.dev
    routeValid := true
    routeSeqValid := true
    lifetime := env.now + activeRouteTimeout }

/-- The second half of `_route_update`, for the entry at `p`: the next hop is followed
only when the entry is written. -/
def routeRenew (destAdd : AodvAddress) (nextHop : Option (ℕ × RouteNeigh)) (metric : U8)
    (p : ℕ) (route : MeshRoute) (routes : RouteTable) : Option RouteTable :=
  if seqGreater route.seq destAdd.sequence then some routes
  else if route.routeValid && destAdd.sequence == route.seq && route.metric ≤ metric then
    some routes
  else do
    let hop ← nextHop
    return routes.modify p (routeAccept env destAdd hop metric)

def routeUpdate (destAdd : AodvAddress) (nextHop : Option (ℕ × RouteNeigh)) (metric : U8)
    (routes : RouteTable) : Option (RouteTable × ℤ) :=
  match routeLookup env destAdd.address routes with
  | (routes, some (p, route)) => do
      let routes ← routeRenew env destAdd nextHop metric p route routes
      return (routes, 0)
  | (routes, none) =>
      match routeInsert conf env .route nextHop destAdd .aodv routes with
      | none => some (routes, enomem)
      | some routes' => do
          let route := routeNew conf nextHop destAdd .aodv
          let routes ← routeRenew env destAdd nextHop metric routes.next route routes'
          return (routes, 0)

/-! ## Neighbours -/

/-- `_neigh_lookup`: the neighbour that sent the task, on the device it came in by. -/
def neighLookup (task : PduTask) (neighs : NeighList) : Option (ℕ × RouteNeigh) :=
  neighs.find? fun neigh =>
    neigh.address.address == task.header.src.address && neigh.dev == task.header.dev

def neighLookupMac (hwAddr : HwAddr) (neighs : NeighList) : Option (ℕ × RouteNeigh) :=
  neighs.find? fun neigh => neigh.myHwAddr == hwAddr

/-- The record `_neigh_insert` fills in. -/
def neighNew (task : PduTask) : RouteNeigh where
  address := task.header.src
  myHwAddr := 0
  lifetime := 0
  dev := task.header.dev

/-- `_neigh_insert`: the neighbour and a route to it. If only the route cannot be
allocated, the neighbour is not linked either. -/
def neighInsert (task : PduTask) (node : RouteNode) : RouteNode × Option (ℕ × RouteNeigh) :=
  match neighLookup task node.neighs with
  | some hop => (node, some hop)
  | none =>
      if env.mem .neigh && env.mem .neighRoute then
        let hop := (node.neighs.next, neighNew task)
        let route := { routeNew conf (some hop) task.header.src .aodv with hopCount := 1 }
        ({ node with
            routes := node.routes.push route
            neighs := node.neighs.push hop.2 }, some hop)
      else (node, none)

/-- The opening of three handlers: look the sender up and insert it if it is unknown. -/
def lastHop (task : PduTask) (node : RouteNode) : RouteNode × Option (ℕ × RouteNeigh) :=
  match neighLookup task node.neighs with
  | some hop => (node, some hop)
  | none => neighInsert conf env task node

/-- The fields `_neigh_update_route` writes; `find_metric` is always one. -/
def routeHello (hop : ℕ × RouteNeigh) (reply : AodvPduReply) (route : MeshRoute) : MeshRoute :=
  { route with
    lifetime := env.now + reply.lifetime
    dev := hop.2.dev
    nextHop := some hop.1
    routeSeqValid := true
    routeValid := true
    seq := reply.dstSeq
    metric := 1 }

/-- `_neigh_update_route`: the result of `route_insert` is not checked. -/
def neighUpdateRoute (hop : ℕ × RouteNeigh) (reply : AodvPduReply) (routes : RouteTable) :
    Option RouteTable :=
  match routeLookup env hop.2.address.address routes with
  | (routes, some (p, _)) => some (routes.modify p (routeHello env hop reply))
  | (routes, none) => do
      let routes' ← routeInsert conf env .route (some hop) hop.2.address .aodv routes
      return routes'.modify routes.next (routeHello env hop reply)

/-! ## Timers -/

def timerEnqueue (timer : RouteTask) (timers : List RouteTask) : List RouteTask :=
  if timers.any fun task => task.subType == timer.subType && task.id == timer.id then timers
  else timer :: timers

/-- `_timer_insert`: the address goes into `src` and `dest`, the id is the node's own. -/
def timerInsert (address : AodvAddress) (subType : TaskSubtype) (delay : U32)
    (timers : List RouteTask) : List RouteTask :=
  if env.mem .timer then
    timerEnqueue
      { type := .mgmt, subType := subType, id := conf.address.address, dest := address,
        src := address, ttl := 0, retries := 0, time := env.now + delay, dev := none } timers
  else timers

def timerLookup (id : U32) (subType : TaskSubtype) (timers : List RouteTask) : Option RouteTask :=
  timers.find? fun task => task.id == id && task.subType == subType

/-- `_timer_delete`: its address argument is not looked at. -/
def timerDelete (subType : TaskSubtype) (id : U32) (timers : List RouteTask) : List RouteTask :=
  timers.filter fun task => !(task.id == id && task.subType == subType)

/-! ## Floods -/

/-- `_flood_lookup`: gives up at the first expired record. -/
def floodLookup (orig reqId : U32) : List RouteFlood → Option RouteFlood
  | [] => none
  | flood :: floods =>
      if timeBefore flood.lifetime env.now then none
      else if orig == flood.orig.address && reqId == flood.reqId then some flood
      else floodLookup orig reqId floods

def floodInsert (orig dest : AodvAddress) (reqId lifetime : U32) (floods : List RouteFlood) :
    List RouteFlood × ℤ :=
  if floods.any fun flood => flood.orig.address == orig.address && flood.reqId == reqId then
    (floods, eexist)
  else if env.mem .flood then (⟨reqId, orig, dest, lifetime⟩ :: floods, 0)
  else (floods, enomem)

end Haodv
end WirelessMesh
