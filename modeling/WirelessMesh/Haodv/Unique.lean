import WirelessMesh.Haodv.Growth

/-!
# One route for each destination

Nothing in `_route_insert` looks for an entry that is there already. The table keeps
one entry for each address as long as no neighbour is created that has a route
already, and no node that is not a gateway answers for a subnet of its own.
-/

namespace WirelessMesh
namespace Haodv

open Routes

variable {conf : NodeConf} {env : Env}

/-- At most one entry for each address. -/
def OneRouteEach (node : RouteNode) : Prop := (addresses node.routes).Nodup

instance (node : RouteNode) : Decidable (OneRouteEach node) :=
  inferInstanceAs (Decidable (addresses node.routes).Nodup)

def currentTask (event : NodeEvent) (node : RouteNode) : Option Task :=
  match event with
  | .thread => node.tasks.head?
  | _ => none

/-- A step that creates a neighbour finds no route to it, and no step answers for a
local subnet. -/
def UniqueStep (conf : NodeConf) (e : Env × NodeEvent) (node : RouteNode) : Prop :=
  ∀ task ∈ currentTask e.2 node, TaskUnique conf e.1 task node

instance (conf : NodeConf) (e : Env × NodeEvent) (node : RouteNode) :
    Decidable (UniqueStep conf e node) := Option.decidableForallMem _

/-! ## Every step -/

theorem addresses_routeFlush (env : Env) (t : RouteTable) :
    (addresses (routeFlush env t)).Sublist (addresses t) := by
  have hkeep : addresses (routeFlush env t) =
      addresses (t.filter fun _ route => !routeStale env route || route.routeValid) := by
    unfold addresses routeFlush
    rw [HeapList.cells_map, List.map_map]
    refine List.map_congr_left fun c _ => ?_
    dsimp only [Function.comp]
    split_ifs
    · exact congrArg AodvAddress.address (routeExpire_spent env c.2).address_eq
    · rfl
  rw [hkeep]
  exact List.filter_sublist.map _

theorem handleMgmt_unique {task : RouteTask} {node : RouteNode} {done : Done}
    (h : handleMgmt conf env task node = some done) (hu : OneRouteEach node) :
    OneRouteEach done.node := by
  cases handleMgmt_cases h with
  | quiet timers hnode =>
      rw [hnode]
      exact hu
  | flush floods timers _ hnode =>
      rw [hnode]
      exact hu.sublist (addresses_routeFlush env node.routes)
  | drop _ =>
      obtain ⟨hg, -⟩ :=
        neighDeleteLoop_growth conf env (some task.src) node.neighs node.neighs.cells node
      exact hg.unique.mpr ⟨hu, trivial⟩
  | request dev => exact (sendRequest_growth conf env dev task node).2.unique.mpr ⟨hu, trivial⟩

theorem handleEvent_unique {e : Env × NodeEvent} {node : RouteNode} {done : Done}
    (hu : OneRouteEach node) (h : handleEvent conf e.1 node e.2 = some done) :
    OneRouteEach done.node ↔ UniqueStep conf e node := by
  obtain ⟨env, event⟩ := e
  have hidle (hnone : currentTask event node = none) : UniqueStep conf (env, event) node := by
    intro task htask
    simp [hnone] at htask
  cases event with
  | input dev d =>
      obtain rfl := Option.some.inj h
      obtain ⟨timers, tasks, hnode⟩ := ipPacketInput_spec conf env dev d node
      refine iff_of_true ?_ (hidle rfl)
      rw [hnode]
      exact hu
  | output dev daddr =>
      refine iff_of_true ?_ (hidle rfl)
      exact (ipPacketOutput_growth h).2.unique.mpr ⟨hu, trivial⟩
  | signal =>
      obtain rfl := Option.some.inj h
      exact iff_of_true hu (hidle rfl)
  | thread =>
      obtain ⟨htasks, hnode⟩ | ⟨task, tasks, htasks, h⟩ := kthread_cases h
      · rw [hnode]
        exact iff_of_true hu (hidle (by simp [currentTask, htasks]))
      · have hcur : UniqueStep conf (env, .thread) node ↔ TaskUnique conf env task node := by
          simp [UniqueStep, currentTask, htasks]
        rw [hcur]
        cases task with
        | pdu task => exact (handlePdu_growth h).unique.trans (and_iff_right hu)
        | mgmt task =>
            refine iff_of_true (handleMgmt_unique h hu) ?_
            simp [TaskUnique, Task.request?, Task.reply?]

/-! ## Runs from the start of the module -/

/-- A node that was started with distinct addresses has one route for each address in
every state of a run exactly if every neighbour that is created on the way has no
route yet and the node never answers for a local subnet. -/
theorem oneRouteEach_iff {env : Env} {order : ByteOrder} {supportGateway : Bool}
    {localIp localMask : U32} {devs : List RouteDev}
    (hdistinct : (localIp :: devs.map fun dev => dev.address.address).Nodup)
    (events : List (Env × NodeEvent)) :
    (∀ t, Machine.Visits (step (boot env order supportGateway localIp localMask devs).1)
        (boot env order supportGateway localIp localMask devs).2 events t → OneRouteEach t) ↔
      Machine.Throughout (step (boot env order supportGateway localIp localMask devs).1)
        (UniqueStep (boot env order supportGateway localIp localMask devs).1) events
        (boot env order supportGateway localIp localMask devs).2 := by
  have hboot : OneRouteEach (boot env order supportGateway localIp localMask devs).2 := by
    rw [OneRouteEach, (boot_booted env order supportGateway localIp localMask devs).addresses_eq]
    rw [← List.reverse_cons, List.nodup_reverse]
    exact hdistinct
  refine Machine.visits_iff (A := fun _ => True) ?_ events hboot trivial
  intro e node node' hu _ hstep
  obtain ⟨done, hdone, rfl⟩ := Option.map_eq_some_iff.mp hstep
  exact ⟨handleEvent_unique hu hdone, trivial⟩

def helloThenRequest : List (Env × NodeEvent) :=
  heard 100 0x0a000002 (.reply (helloPdu .little 0x0a000002 1)) ++
    heard 200 0x0a000002 (.request (requestPdu .little 0x0a000002 2 2 0x0a000009))

theorem oneRouteEach_hello_request :
    ∃ t, Machine.Visits (step (lanNode .little true).1) (lanNode .little true).2
      helloThenRequest t ∧ 0x0a000002 ∈ addresses t.routes ∧ OneRouteEach t := by
  have hrun : (Machine.finish (step (lanNode .little true).1) helloThenRequest
      (lanNode .little true).2).any (fun t => decide (0x0a000002 ∈ addresses t.routes)) = true := by
    decide +kernel
  obtain ⟨t, hvisits, hmem⟩ := Machine.exists_visits hrun
  exact ⟨t, hvisits, hmem,
    (oneRouteEach_iff (by decide) helloThenRequest).mpr (by decide +kernel) t hvisits⟩

/-- `10.0.0.2` relays a RREQ of `10.0.0.3`, and then `10.0.0.3` itself is heard. -/
theorem relayed_then_heard :
    ∃ t, Machine.Visits (step (lanNode .little true).1) (lanNode .little true).2
      (heard 100 0x0a000002 (.request (requestPdu .little 0x0a000003 2 2 0x0a000009)) ++
        heard 200 0x0a000003 (.reply (helloPdu .little 0x0a000003 3))) t ∧
      ¬OneRouteEach t := by
  have hrun : (Machine.finish (step (lanNode .little true).1)
      (heard 100 0x0a000002 (.request (requestPdu .little 0x0a000003 2 2 0x0a000009)) ++
        heard 200 0x0a000003 (.reply (helloPdu .little 0x0a000003 3)))
      (lanNode .little true).2).any (fun t => decide (¬OneRouteEach t)) = true := by
    decide +kernel
  exact Machine.exists_visits hrun

end Haodv
end WirelessMesh
