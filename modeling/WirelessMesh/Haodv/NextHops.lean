import WirelessMesh.Haodv.Growth

/-!
# Next hops that point to neighbours

A neighbour is freed by `_neigh_delete` while routes hold its address. The walk of
`_node_send_error` is there to clear them, but it clears an entry only by expiring it:
an entry that is not valid, has no device or is the node's own keeps its next hop, and
so do all entries if there is no memory for the RERR.
-/

namespace WirelessMesh
namespace Haodv

open Routes

variable {conf : NodeConf} {env : Env}

/-- Every next hop is null or a neighbour that is linked. -/
def NextHopsLinked (node : RouteNode) : Prop := HopsIn node.neighs node.routes

instance (node : RouteNode) : Decidable (NextHopsLinked node) :=
  decidable_of_iff (∀ c ∈ node.routes.cells, ∀ p ∈ c.2.nextHop,
    p ∈ node.neighs.cells.map Prod.fst) (by simp [NextHopsLinked, HopsIn])

def droppedBy (e : Env × NodeEvent) (node : RouteNode) : List (ℕ × RouteNeigh) :=
  match e.2, node.tasks with
  | .thread, .mgmt task :: _ =>
      if task.subType = .neighbor then
        node.neighs.cells.filter fun c => neighDoomed e.1 (some task.src) c.2
      else []
  | _, _ => []

/-- An entry that loses its next hop when the neighbour at `p` is dropped. -/
def Clearable (env : Env) (p : ℕ) (route : MeshRoute) : Prop :=
  route.selfRoute = false ∧ route.routeValid = true ∧ route.dev.isSome = true ∧
    env.mem (.errPdu p) = true

/-- All routes through a neighbour that is dropped, as the lookup of its own route leaves them,
are learned, valid and have a device, and there is memory for the RERR about them. -/
def ClearsRoutes (e : Env × NodeEvent) (node : RouteNode) : Prop :=
  ∀ c ∈ droppedBy e node, ∀ d ∈ (routeLookup e.1 c.2.address.address node.routes).1.cells,
    d.2.nextHop = some c.1 → Clearable e.1 c.1 d.2

instance (e : Env × NodeEvent) (node : RouteNode) : Decidable (ClearsRoutes e node) :=
  inferInstanceAs (Decidable (∀ c ∈ droppedBy e node,
    ∀ d ∈ (routeLookup e.1 c.2.address.address node.routes).1.cells, _ → _ ∧ _ ∧ _ ∧ _))

/-! ## Dropping one neighbour -/

theorem routeBreak_clears {p : ℕ} {r : MeshRoute} (hr : r.nextHop = some p → Clearable env p r) :
    (routeBreak env p r).nextHop ≠ some p := by
  intro hp
  by_cases hhop : r.nextHop = some p
  · obtain ⟨hself, hvalid, hdev, -⟩ := hr hhop
    obtain ⟨dev, hdev⟩ := Option.isSome_iff_exists.mp hdev
    simp [routeBreak, routeThrough, hhop, hself, hvalid, routeExpire, hdev] at hp
  · rw [(routeBreak_spent env p r).eq_of_nextHop (by simp [hp])] at hp
    exact hhop hp

/-- The walk over the table leaves no pointer to `p` if all routes through it can be
cleared. -/
theorem sendError_clears (conf : NodeConf) {p : ℕ} {t : RouteTable}
    (ht : ∀ d ∈ t.cells, d.2.nextHop = some p → Clearable env p d.2) :
    HeapList.Pointwise Spent t (sendError conf env p t).1 ∧
      ∀ d ∈ (sendError conf env p t).1.cells, d.2.nextHop ≠ some p := by
  have hself : HeapList.Pointwise Spent t t := .refl Spent.refl t
  unfold sendError
  dsimp only
  split_ifs with hnone hmem
  · refine ⟨hself, fun d hd hp => ?_⟩
    have hthrough : routeThrough p d.2 = true := by simp [routeThrough, hp, (ht d hd hp).1]
    rw [List.length_eq_zero_iff, List.filter_eq_nil_iff] at hnone
    exact hnone d hd hthrough
  · refine ⟨hself, fun d hd hp => ?_⟩
    simp [(ht d hd hp).2.2.2] at hmem
  · refine ⟨HeapList.map_pointwise fun _ r _ => routeBreak_spent env p r, ?_⟩
    rintro ⟨q, r'⟩ hd
    obtain ⟨r, hr, rfl⟩ := HeapList.mem_map.mp hd
    exact routeBreak_clears (ht _ hr)

/-- What the loop of `_neigh_delete` keeps: no dangling pointer, and every route
through a neighbour still to be dropped can be cleared. -/
structure DropReady (env : Env) (address : Option AodvAddress) (cs : List (ℕ × RouteNeigh))
    (node : RouteNode) : Prop where
  linked : NextHopsLinked node
  ready : ∀ c ∈ cs, neighDoomed env address c.2 = true →
    ∀ d ∈ (routeLookup env c.2.address.address node.routes).1.cells,
      d.2.nextHop = some c.1 → Clearable env c.1 d.2

theorem mem_of_spent {t t' : RouteTable} (h : HeapList.Pointwise Spent t t') {d : ℕ × MeshRoute}
    {p : ℕ} (hd : d ∈ t'.cells) (hp : d.2.nextHop = some p) : d ∈ t.cells := by
  obtain ⟨q, r'⟩ := d
  obtain ⟨r, hr, hspent⟩ := h.mem_left hd
  obtain rfl : r' = r := hspent.eq_of_nextHop (Option.ne_none_iff_exists'.mpr ⟨p, hp⟩)
  exact hr

theorem DropReady.neighDrop {address : Option AodvAddress} {c : ℕ × RouteNeigh}
    {cs : List (ℕ × RouteNeigh)} {node : RouteNode} (h : DropReady env address (c :: cs) node)
    (hc : neighDoomed env address c.2 = true) :
    DropReady env address cs (neighDrop conf env c node).1 := by
  have hlook := routeLookup_spent env c.2.address.address node.routes
  obtain ⟨hbreak, hgone⟩ := sendError_clears conf (h.ready c List.mem_cons_self hc)
  have hall := HeapList.Pointwise.trans (R := Spent) Spent.trans hlook hbreak
  refine ⟨?_, ?_⟩
  · intro d hd p hp
    obtain ⟨n, hn⟩ := h.linked d (mem_of_spent hall hd hp) p hp
    refine ⟨n, HeapList.mem_erase.mpr ⟨hn, ?_⟩⟩
    rintro rfl
    exact hgone d hd hp
  · intro c' hc' hdoomed d hd hp
    -- the lookup for the next neighbour comes past the same entries
    have hnext : HeapList.Pointwise Spent (routeLookup env c'.2.address.address node.routes).1
        (routeLookup env c'.2.address.address (Haodv.neighDrop conf env c node).1.routes).1 :=
      hall.walk (Spent.ageRoute env) fun hspent => hspent.routeCompare_eq _
    exact h.ready c' (List.mem_cons_of_mem _ hc') hdoomed d (mem_of_spent hnext hd hp) hp

theorem DropReady.neighDeleteLoop {address : Option AodvAddress} {cs : List (ℕ × RouteNeigh)}
    {node : RouteNode} (h : DropReady env address cs node) :
    NextHopsLinked (neighDeleteLoop conf env address cs node).1 := by
  induction cs generalizing node with
  | nil => exact h.linked
  | cons c cs ih =>
      rw [Haodv.neighDeleteLoop]
      split_ifs with hc
      · exact ih (h.neighDrop hc)
      · exact ih ⟨h.linked, fun c' hc' => h.ready c' (List.mem_cons_of_mem _ hc')⟩

/-! ## Every step -/

theorem hopsIn_routeFlush {neighs : NeighList} {t : RouteTable} (h : HopsIn neighs t) :
    HopsIn neighs (routeFlush env t) := by
  rintro ⟨q, r'⟩ hd p hp
  obtain ⟨r, hr, rfl⟩ := HeapList.mem_map.mp hd
  have hr := (HeapList.mem_filter.mp hr).1
  split_ifs at hp
  · rw [(routeExpire_spent env r).eq_of_nextHop (Option.ne_none_iff_exists'.mpr ⟨p, hp⟩)] at hp
    exact h _ hr p hp
  · exact h _ hr p hp

theorem handleEvent_linked {e : Env × NodeEvent} {node : RouteNode} {done : Done}
    (hlinked : NextHopsLinked node) (hclears : ClearsRoutes e node)
    (h : handleEvent conf e.1 node e.2 = some done) : NextHopsLinked done.node := by
  obtain ⟨env, event⟩ := e
  cases event with
  | input dev d =>
      obtain rfl := Option.some.inj h
      obtain ⟨timers, tasks, hnode⟩ := ipPacketInput_spec conf env dev d node
      rw [hnode]
      exact hlinked
  | output dev daddr =>
      obtain ⟨hneighs, hg⟩ := ipPacketOutput_growth h
      unfold NextHopsLinked
      rw [hneighs]
      exact hg.hops hlinked
  | signal =>
      obtain rfl := Option.some.inj h
      exact hlinked
  | thread =>
      obtain ⟨-, hnode⟩ | ⟨task, tasks, htasks, h⟩ := kthread_cases h
      · rw [hnode]
        exact hlinked
      · cases task with
        | pdu task => exact (handlePdu_growth h).hops hlinked
        | mgmt task =>
            cases handleMgmt_cases h with
            | quiet timers hnode =>
                rw [hnode]
                exact hlinked
            | flush floods timers _ hnode =>
                rw [hnode]
                exact hopsIn_routeFlush hlinked
            | drop hty =>
                refine DropReady.neighDeleteLoop ⟨hlinked, fun c hc hdoomed => ?_⟩
                refine hclears c ?_
                simp only [droppedBy, htasks, hty, if_true]
                exact List.mem_filter.mpr ⟨hc, hdoomed⟩
            | request dev =>
                obtain ⟨hneighs, hg⟩ :=
                  sendRequest_growth conf env dev task { node with tasks := tasks }
                unfold NextHopsLinked
                rw [hneighs]
                exact hg.hops hlinked

/-! ## Runs from the start of the module -/

theorem nextHopsLinked_boot (env : Env) (order : ByteOrder) (supportGateway : Bool)
    (localIp localMask : U32) (devs : List RouteDev) :
    NextHopsLinked (boot env order supportGateway localIp localMask devs).2 := by
  intro c hc p hp
  rw [(boot_booted env order supportGateway localIp localMask devs).noHops c hc] at hp
  cases hp

/-- In every state of a run, every next hop is null or linked, provided that each
neighbour the run drops is one whose routes are all cleared. -/
theorem nextHopsLinked_of_clears {env : Env} {order : ByteOrder} {supportGateway : Bool}
    {localIp localMask : U32} {devs : List RouteDev} {events : List (Env × NodeEvent)}
    (hclears : Machine.Throughout (step (boot env order supportGateway localIp localMask devs).1)
      ClearsRoutes events (boot env order supportGateway localIp localMask devs).2)
    {t : RouteNode}
    (hvisits : Machine.Visits (step (boot env order supportGateway localIp localMask devs).1)
      (boot env order supportGateway localIp localMask devs).2 events t) :
    NextHopsLinked t := by
  refine hvisits.invariant_of_throughout ?_ hclears (nextHopsLinked_boot env _ _ _ _ _)
  intro e node node' hlinked hc hstep
  obtain ⟨done, hdone, rfl⟩ := Option.map_eq_some_iff.mp hstep
  exact handleEvent_linked hlinked hc hdone

/-- A neighbour says HELLO once and is given up when its time is over. -/
def fallsSilent : List (Env × NodeEvent) :=
  heard 1000 0x0a000002 (.reply (helloPdu .little 0x0a000002 1)) ++
    [(.plenty 31100, .signal), (.plenty 31100, .thread)]

theorem nextHopsLinked_falls_silent :
    ∃ t, Machine.Visits (step (lanNode .little true).1) (lanNode .little true).2 fallsSilent t ∧
      t.neighs.cells = [] ∧ NextHopsLinked t := by
  have hrun : (Machine.finish (step (lanNode .little true).1) fallsSilent
      (lanNode .little true).2).any (fun t => decide (t.neighs.cells = [])) = true := by
    decide +kernel
  obtain ⟨t, hvisits, hgone⟩ := Machine.exists_visits hrun
  exact ⟨t, hvisits, hgone, nextHopsLinked_of_clears (by decide +kernel) hvisits⟩

def tick (now : U32) : List (Env × NodeEvent) :=
  [(.plenty now, .signal), (.plenty now, .thread), (.plenty now, .thread)]

/-- Shortly before `10.0.0.2` is given up, it relays a RREQ of `10.0.0.3`. -/
def relaysAndFallsSilent : List (Env × NodeEvent) :=
  heard 1000 0x0a000002 (.reply (helloPdu .little 0x0a000002 1)) ++
    tick 10000 ++ tick 20000 ++ tick 30000 ++
    heard 31050 0x0a000002 (.request (requestPdu .little 0x0a000003 2 2 0x0a000009)) ++
    [(.plenty 31100, .signal), (.plenty 31100, .thread)]

/-- The route to `10.0.0.3` is not valid and keeps the address of the freed neighbour. -/
theorem next_hop_dangles :
    ∃ t, Machine.Visits (step (lanNode .little true).1) (lanNode .little true).2
      relaysAndFallsSilent t ∧ ¬NextHopsLinked t := by
  have hrun : (Machine.finish (step (lanNode .little true).1) relaysAndFallsSilent
      (lanNode .little true).2).any (fun t => decide (¬NextHopsLinked t)) = true := by
    decide +kernel
  exact Machine.exists_visits hrun

end Haodv
end WirelessMesh
