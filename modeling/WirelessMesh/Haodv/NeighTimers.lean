import WirelessMesh.Haodv.Growth
import WirelessMesh.Lib.KeyedQueue

/-!
# The timers of the neighbours

A neighbour is given up by a NEIGHBOR timer that carries its address. The timer queue tells
timers apart by subtype and id; the id of every timer is the node's own address, so the queue
holds one NEIGHBOR timer at most, whoever it is for. `_timer_delete` is called with the id
zero and finds nothing, unless the own address is zero: then it finds the timers of all
neighbours.
-/

namespace WirelessMesh
namespace Haodv

open Routes KeyedQueue Machine

/-! ## The timer queue -/

def RouteTask.key (task : RouteTask) : TaskSubtype × U32 := (task.subType, task.id)

theorem timerEnqueue_eq (timer : RouteTask) (timers : List RouteTask) :
    timerEnqueue timer timers = enqueue RouteTask.key timer timers := by
  rw [enqueue_eq_any]
  simp only [timerEnqueue, RouteTask.key, Prod.mk.injEq, Bool.decide_and, beq_eq_decide]

def givesUp (a : U32) (task : RouteTask) : Bool :=
  task.subType == .neighbor && task.src.address == a

def timesFor (a : U32) (timers : List RouteTask) : List U32 :=
  (timers.filter (givesUp a)).map RouteTask.time

def Task.mgmt? : Task → Option RouteTask
  | .mgmt task => some task
  | .pdu _ => none

def RouteNode.expiries (node : RouteNode) (a : U32) : List U32 :=
  timesFor a node.timers ++ timesFor a (node.tasks.filterMap Task.mgmt?)

/-- The timers that `_timer_delete` leaves. -/
def RouteNode.kept (node : RouteNode) : RouteNode :=
  { node with timers := timerDelete .neighbor 0 node.timers }

def neighborTimer (conf : NodeConf) (env : Env) (address : AodvAddress) : RouteTask where
  type := .mgmt
  subType := .neighbor
  id := conf.address.address
  dest := address
  src := address
  ttl := 0
  retries := 0
  time := env.now + neighborDelay
  dev := none

def restartTimers (conf : NodeConf) (env : Env) (address : AodvAddress) (timers : List RouteTask) :
    List RouteTask :=
  timerInsert conf env address .neighbor neighborDelay (timerDelete .neighbor 0 timers)

/-- A new NEIGHBOR timer is taken into the queue that `_timer_delete` leaves. -/
def Sets (conf : NodeConf) (env : Env) (node : RouteNode) : Prop :=
  env.mem .timer = true ∧
    pending RouteTask.key (.neighbor, conf.address.address) node.kept.timers = []

instance (conf : NodeConf) (env : Env) (node : RouteNode) : Decidable (Sets conf env node) :=
  inferInstanceAs (Decidable (_ ∧ _))

section Times

variable {conf : NodeConf} {env : Env} {a : U32} {timers : List RouteTask} {node : RouteNode}

@[simp] theorem timesFor_nil : timesFor a [] = [] := rfl

@[simp] theorem timesFor_append (l l' : List RouteTask) :
    timesFor a (l ++ l') = timesFor a l ++ timesFor a l' := by
  simp [timesFor]

theorem timesFor_enqueue_of_ne {timer : RouteTask} (h : timer.subType ≠ .neighbor) :
    timesFor a (timerEnqueue timer timers) = timesFor a timers := by
  have hno : ¬(pending RouteTask.key timer.key timers = [] ∧ givesUp a timer = true) := by
    simp [givesUp, h]
  rw [timesFor, timerEnqueue_eq, filter_enqueue, if_neg hno]
  rfl

theorem timesFor_insert_of_ne {address : AodvAddress} {subType : TaskSubtype} {delay : U32}
    (h : subType ≠ .neighbor) :
    timesFor a (timerInsert conf env address subType delay timers) = timesFor a timers := by
  unfold timerInsert
  split_ifs
  · exact timesFor_enqueue_of_ne h
  · rfl

theorem timesFor_restart (address : AodvAddress) :
    timesFor a (restartTimers conf env address node.timers) =
      if Sets conf env node ∧ address.address = a then
        (env.now + neighborDelay) :: timesFor a node.kept.timers
      else timesFor a node.kept.timers := by
  unfold restartTimers timerInsert
  by_cases hmem : env.mem .timer = true
  · rw [if_pos hmem]
    change timesFor a (timerEnqueue (neighborTimer conf env address) node.kept.timers) = _
    rw [timesFor, timerEnqueue_eq, filter_enqueue]
    have hcond : (pending RouteTask.key (neighborTimer conf env address).key node.kept.timers = [] ∧
        givesUp a (neighborTimer conf env address) = true) ↔
          Sets conf env node ∧ address.address = a := by
      simp [Sets, hmem, givesUp, neighborTimer, RouteTask.key]
    by_cases hset : Sets conf env node ∧ address.address = a
    · rw [if_pos hset, if_pos (hcond.mpr hset)]
      rfl
    · rw [if_neg hset, if_neg (mt hcond.mp hset)]
      rfl
  · have hset : ¬(Sets conf env node ∧ address.address = a) := fun h => hmem h.1.1
    rw [if_neg hmem, if_neg hset]
    rfl

def Spared (node : RouteNode) (a : U32) : Prop :=
  ∀ task ∈ node.timers, givesUp a task = true → task.id ≠ 0

theorem expiries_kept_iff {t : U32} (h : node.expiries a = [t]) :
    node.kept.expiries a = [t] ↔ Spared node a := by
  constructor
  · intro hkept task htask hgives hid
    -- A timer for `a` is the one there is, and it would be gone.
    have hlen : (timesFor a node.kept.timers).length = (timesFor a node.timers).length := by
      have heq := congrArg List.length (hkept.trans h.symm)
      simp only [RouteNode.expiries, List.length_append, RouteNode.kept] at heq ⊢
      omega
    have hsub : ((node.timers.filter (givesUp a)).filter fun task =>
        !(task.id == 0 && task.subType == .neighbor)).length =
          (node.timers.filter (givesUp a)).length := by
      simpa [timesFor, RouteNode.kept, timerDelete, List.filter_filter, Bool.and_comm] using hlen
    have hall := List.length_filter_eq_length_iff.mp hsub task (List.mem_filter.mpr ⟨htask, hgives⟩)
    simp only [givesUp, Bool.and_eq_true, beq_iff_eq] at hgives
    simp [hid, hgives.1] at hall
  · intro hspared
    have hsame : timesFor a node.kept.timers = timesFor a node.timers := by
      rw [timesFor, timesFor, RouteNode.kept, timerDelete, List.filter_filter]
      congr 1
      apply List.filter_congr
      intro task htask
      cases hgives : givesUp a task with
      | false => rfl
      | true =>
          have hid : (task.id == 0) = false := by simpa using hspared task htask hgives
          rw [hid]
          rfl
    rw [RouteNode.expiries, hsame]
    exact h

end Times

/-! ## HELLO traffic -/

/-- What happens to a node that hears HELLOs only. The HELLO of `src` has this address in both
places. -/
inductive HelloEvent where
  | hello (dev : RouteDev) (hwAddr : HwAddr) (src daddr : U32) (ttl : U8) (reply : AodvPduReply)
  | signal
  | thread

def HelloEvent.toNodeEvent : HelloEvent → NodeEvent
  | .hello dev hwAddr src daddr ttl reply =>
      .input dev ⟨hwAddr, src, daddr, ttl, .reply { reply with srcIp := src, dstIp := src }⟩
  | .signal => .signal
  | .thread => .thread

/-- A node, with the time of the last HELLO for each neighbour record. -/
structure Watch where
  node : RouteNode
  heardAt : ℕ → U32

/-- The record that the next task of the thread writes, if that is a HELLO. -/
def RouteNode.heardFrom (conf : NodeConf) (env : Env) (node : RouteNode) : Option ℕ :=
  match node.tasks with
  | .pdu task :: _ => (lastHop conf env task node).2.map Prod.fst
  | .mgmt _ :: _ => none
  | [] => none

def Watch.step (conf : NodeConf) : Env × HelloEvent → Watch → Option Watch
  | (env, .thread), w => (Haodv.step conf (env, .thread) w.node).map fun node =>
      match w.node.heardFrom conf env with
      | some p => ⟨node, Function.update w.heardAt p env.now⟩
      | none => ⟨node, w.heardAt⟩
  | (env, .hello dev hwAddr src daddr ttl reply), w =>
      (Haodv.step conf (env, (HelloEvent.hello dev hwAddr src daddr ttl reply).toNodeEvent)
        w.node).map fun node => ⟨node, w.heardAt⟩
  | (env, .signal), w => (Haodv.step conf (env, .signal) w.node).map fun node => ⟨node, w.heardAt⟩

/-- Each neighbour has one timer or task, which is due some time after its last HELLO. -/
def OneTimerEach (w : Watch) : Prop :=
  ∀ c ∈ w.node.neighs.cells,
    w.node.expiries c.2.address.address = [w.heardAt c.1 + neighborDelay]

instance (w : Watch) : Decidable (OneTimerEach w) :=
  inferInstanceAs (Decidable (∀ c ∈ w.node.neighs.cells, _ = _))

/-! ## What keeps it so -/

def Spares (node : RouteNode) (a : U32) : Prop :=
  ∀ c ∈ node.neighs.cells, c.2.address.address ≠ a → Spared node c.2.address.address

/-- Setting the timer of `a` again leaves one, due at `time`: none is left over and the new one
is taken and has this time, or one with this time is left over and the new one is refused. -/
def RestartOk (conf : NodeConf) (env : Env) (node : RouteNode) (a time : U32) : Prop :=
  if Sets conf env node then node.kept.expiries a = [] ∧ env.now + neighborDelay = time
  else node.kept.expiries a = [time]

/-- The steps of HELLO traffic that lose no timer and set none wrongly. A HELLO that comes in
restarts the timer of the neighbour with its hardware address; one that is handled restarts
that of its sender, whose other records must have been heard now as well; a NEIGHBOR task must
find all records of its address over. -/
def Steady (conf : NodeConf) : Env × HelloEvent → Watch → Prop
  | (env, .hello _ hwAddr _ _ _ _), w =>
      match neighLookupMac hwAddr w.node.neighs with
      | none => True
      | some (_, neigh) => Spares w.node neigh.address.address ∧
          ∀ c ∈ w.node.neighs.cells, c.2.address.address = neigh.address.address →
            RestartOk conf env w.node neigh.address.address (w.heardAt c.1 + neighborDelay)
  | (_, .signal), _ => True
  | (env, .thread), w =>
      match w.node.tasks with
      | [] => True
      | .pdu task :: _ =>
          match (lastHop conf env task w.node).2 with
          | none => True
          | some (p, _) => Spares w.node task.header.src.address ∧
              RestartOk conf env w.node task.header.src.address (env.now + neighborDelay) ∧
              ∀ c ∈ w.node.neighs.cells, c.2.address.address = task.header.src.address → c.1 ≠ p →
                w.heardAt c.1 = env.now
      | .mgmt task :: _ =>
          if task.subType = .neighbor then
            (∀ c ∈ w.node.neighs.cells, c.2.address.address = task.src.address →
              timeBefore c.2.lifetime env.now = true) ∧
            ((∃ c ∈ w.node.neighs.cells, c.2.address.address = task.src.address) →
              Spares w.node task.src.address)
          else True

section Restart

variable {conf : NodeConf} {env : Env} {node node' : RouteNode} {a b : U32}

/-- What a restart leaves pending for the neighbour it is for, and for the others. -/
theorem expiries_restart {address : AodvAddress}
    (htimers : node'.timers = restartTimers conf env address node.timers)
    (htasks : node'.tasks.filterMap Task.mgmt? = node.tasks.filterMap Task.mgmt?) :
    node'.expiries a = if Sets conf env node ∧ address.address = a then
        (env.now + neighborDelay) :: node.kept.expiries a
      else node.kept.expiries a := by
  rw [RouteNode.expiries, htimers, htasks, timesFor_restart]
  split_ifs
  · rfl
  · rfl

theorem expiries_restart_self_iff {address : AodvAddress} {time : U32}
    (htimers : node'.timers = restartTimers conf env address node.timers)
    (htasks : node'.tasks.filterMap Task.mgmt? = node.tasks.filterMap Task.mgmt?) :
    node'.expiries address.address = [time] ↔ RestartOk conf env node address.address time := by
  rw [expiries_restart htimers htasks, RestartOk]
  by_cases hset : Sets conf env node
  · rw [if_pos ⟨hset, rfl⟩, if_pos hset, List.cons.injEq]
    exact and_comm
  · rw [if_neg (fun h => hset h.1), if_neg hset]

theorem expiries_restart_other_iff {address : AodvAddress} {time : U32}
    (htimers : node'.timers = restartTimers conf env address node.timers)
    (htasks : node'.tasks.filterMap Task.mgmt? = node.tasks.filterMap Task.mgmt?)
    (hne : b ≠ address.address) (hone : node.expiries b = [time]) :
    node'.expiries b = [time] ↔ Spared node b := by
  rw [expiries_restart htimers htasks, if_neg (fun h => hne h.2.symm)]
  exact expiries_kept_iff hone

end Restart

/-! ## The steps -/

section Steps

variable {conf : NodeConf} {env : Env} {node : RouteNode}

def HellosOnly (node : RouteNode) : Prop :=
  ∀ task, .pdu task ∈ node.tasks → ∃ dev reply, task.header.dev = some dev ∧
    task.header.subType = .rrep ∧ task.data = .reply reply ∧ reply.srcIp = reply.dstIp ∧
    task.header.src.address = reply.srcIp

variable (conf env node) in
theorem hello_input (dev : RouteDev) (hwAddr : HwAddr) (src daddr : U32) (ttl : U8)
    (reply : AodvPduReply) : ∃ node' tasks,
    Haodv.step conf (env, (HelloEvent.hello dev hwAddr src daddr ttl reply).toNodeEvent) node =
      some node' ∧
    node'.neighs = node.neighs ∧
    node'.timers = (match neighLookupMac hwAddr node.neighs with
      | some (_, neigh) => restartTimers conf env neigh.address node.timers
      | none => node.timers) ∧
    node'.tasks = node.tasks ++ tasks ∧ tasks.filterMap Task.mgmt? = [] ∧
    (HellosOnly node → HellosOnly node') := by
  let d : Datagram := ⟨hwAddr, src, daddr, ttl, .reply { reply with srcIp := src, dstIp := src }⟩
  by_cases hmem : (env.mem .task && env.mem .pdu) = true
  · have heq : ipPacketInput conf env dev d node = { node with
        timers := match neighLookupMac hwAddr node.neighs with
          | some (_, neigh) => restartTimers conf env neigh.address node.timers
          | none => node.timers
        tasks := node.tasks ++ [.pdu (ipTask dev .rrep d)] } := by
      simp only [ipPacketInput, d, validProtocolPdu, pduSubtype, hmem]
      rfl
    refine ⟨_, [.pdu (ipTask dev .rrep d)], congrArg some heq, rfl, rfl, rfl, rfl, ?_⟩
    intro hall task htask
    rcases List.mem_append.mp htask with htask | htask
    · exact hall task htask
    · obtain rfl := Task.pdu.inj (List.mem_singleton.mp htask)
      exact ⟨dev, _, rfl, rfl, rfl, rfl, rfl⟩
  · have heq : ipPacketInput conf env dev d node = { node with
        timers := match neighLookupMac hwAddr node.neighs with
          | some (_, neigh) => restartTimers conf env neigh.address node.timers
          | none => node.timers } := by
      simp only [ipPacketInput, d, validProtocolPdu, pduSubtype, hmem]
      rfl
    exact ⟨_, [], congrArg some heq, rfl, rfl, (List.append_nil _).symm, rfl, fun hall => hall⟩

/-- What `_dev_rx_hello` leaves of the neighbours and timers. -/
structure Renewed (conf : NodeConf) (env : Env) (task : PduTask) (node node' : RouteNode)
    (p : ℕ) : Prop where
  cells : ∃ neigh', neigh'.address.address = task.header.src.address ∧
    ∀ c, c ∈ node'.neighs.cells ↔ c = (p, neigh') ∨ (c.1 ≠ p ∧ c ∈ node.neighs.cells)
  address : ∀ neigh, (p, neigh) ∈ node.neighs.cells →
    neigh.address.address = task.header.src.address
  timers : ∃ address : AodvAddress, address.address = task.header.src.address ∧
    node'.timers = restartTimers conf env address node.timers

theorem mem_modify_const {neighs : NeighList} {p : ℕ} {neigh neigh' : RouteNeigh}
    (h : (p, neigh) ∈ neighs.cells) (c : ℕ × RouteNeigh) :
    c ∈ (neighs.modify p fun _ => neigh').cells ↔
      c = (p, neigh') ∨ (c.1 ≠ p ∧ c ∈ neighs.cells) := by
  obtain ⟨q, m⟩ := c
  rw [HeapList.mem_modify]
  constructor
  · rintro ⟨m', hm', rfl⟩
    by_cases hq : q = p
    · simp [hq]
    · simp [hq, hm']
  · rintro (heq | ⟨hq, hm⟩)
    · obtain ⟨rfl, rfl⟩ := Prod.mk.inj heq
      exact ⟨neigh, h, by simp⟩
    · exact ⟨m, hm, (if_neg hq).symm⟩

theorem rxHello_effect {dev : RouteDev} {task : PduTask} {reply : AodvPduReply} {done : Done}
    (h : rxHello conf env dev task reply node = some done) :
    done.node.tasks = node.tasks ∧
    (((lastHop conf env task node).2 = none ∧ done.node.neighs = node.neighs ∧
        done.node.timers = node.timers) ∨
      ∃ hop, (lastHop conf env task node).2 = some hop ∧
        Renewed conf env task node done.node hop.1) := by
  unfold rxHello at h
  obtain ⟨hop, heq, rfl, -⟩ | ⟨⟨hnone, -⟩, heq⟩ := lastHop_cases conf env task node
  · rw [heq] at h ⊢
    cases hfound : neighLookup task node.neighs with
    | none =>
        simp only [hfound] at h
        obtain rfl := Option.some.inj h
        exact ⟨rfl, .inl ⟨rfl, rfl, rfl⟩⟩
    | some hop =>
        obtain ⟨p, neigh⟩ := hop
        simp only [hfound] at h
        obtain ⟨routes, -, h⟩ := Option.bind_eq_some_iff.mp h
        obtain rfl := Option.some.inj h
        have hmem : (p, neigh) ∈ node.neighs.cells := HeapList.mem_of_find? hfound
        have haddr : neigh.address.address = task.header.src.address := by
          have hmatch := HeapList.of_find? hfound
          simp only [Bool.and_eq_true, beq_iff_eq] at hmatch
          exact hmatch.1
        refine ⟨rfl, .inr ⟨(p, neigh), rfl,
          ⟨{ neigh with lifetime := reply.lifetime + env.now + 20 }, haddr, mem_modify_const hmem⟩,
          ?_, neigh.address, haddr, rfl⟩⟩
        intro neigh' hneigh'
        rw [HeapList.eq_of_mem hneigh' hmem]
        exact haddr
  · rw [heq] at h ⊢
    simp only [hnone] at h
    obtain ⟨routes, -, h⟩ := Option.bind_eq_some_iff.mp h
    obtain rfl := Option.some.inj h
    have hnew : (node.neighs.next, neighNew task) ∈ (node.neighs.push (neighNew task)).cells :=
      List.mem_cons_self
    let neigh' : RouteNeigh := { neighNew task with
      myHwAddr := task.srcHwAddr, dev := some dev, lifetime := reply.lifetime + env.now + 20 }
    refine ⟨rfl, .inr ⟨_, rfl, ⟨neigh', rfl, fun c => ?_⟩, ?_, task.header.src, rfl, rfl⟩⟩
    · refine (mem_modify_const hnew c).trans (or_congr_right ?_)
      refine and_congr_right fun hne => ?_
      rw [HeapList.cells_push, List.mem_cons]
      refine or_iff_right ?_
      rintro rfl
      exact hne rfl
    · intro neigh hneigh
      exact absurd hneigh (HeapList.next_notMem _ _)

theorem handlePdu_hello {task : PduTask} {dev : RouteDev} {reply : AodvPduReply} {done : Done}
    (hdev : task.header.dev = some dev) (hty : task.header.subType = .rrep)
    (hdata : task.data = .reply reply) (hsame : reply.srcIp = reply.dstIp)
    (hsrc : task.header.src.address = reply.srcIp)
    (h : handlePdu conf env task node = some done) :
    ∃ reply' done', rxHello conf env dev task reply' node = some done' ∧
      done.node = done'.node := by
  simp only [handlePdu, hdev, hty, hdata, Option.bind_eq_bind, Option.bind_some, rxReply, hsame,
    hsrc, beq_self_eq_true, Bool.and_self, if_true] at h
  obtain ⟨done', hhello, h⟩ := Option.bind_eq_some_iff.mp h
  obtain rfl := Option.some.inj h
  exact ⟨_, done', hhello, rfl⟩

theorem neighDeleteLoop_effect (conf : NodeConf) (env : Env) (address : Option AodvAddress)
    (cs : List (ℕ × RouteNeigh)) (node : RouteNode) :
    (∀ c, c ∈ (neighDeleteLoop conf env address cs node).1.neighs.cells ↔
      c ∈ node.neighs.cells ∧ ∀ d ∈ cs, neighDoomed env address d.2 = true → c.1 ≠ d.1) ∧
    (neighDeleteLoop conf env address cs node).1.tasks = node.tasks ∧
    (neighDeleteLoop conf env address cs node).1.timers =
      if ∃ d ∈ cs, neighDoomed env address d.2 = true then node.kept.timers else node.timers := by
  induction cs generalizing node with
  | nil => simp [neighDeleteLoop]
  | cons d cs ih =>
      rw [neighDeleteLoop]
      by_cases hdoomed : neighDoomed env address d.2 = true
      · simp only [hdoomed, if_true]
        obtain ⟨hcells, htasks, htimers⟩ := ih (neighDrop conf env d node).1
        refine ⟨fun c => ?_, htasks, ?_⟩
        · rw [hcells, show (neighDrop conf env d node).1.neighs = node.neighs.erase d.1 from rfl,
            HeapList.mem_erase]
          simp [hdoomed, and_assoc]
        · have htwice : (neighDrop conf env d node).1.kept.timers = node.kept.timers := by
            simp [neighDrop, RouteNode.kept, timerDelete]
          have hany : ∃ e ∈ d :: cs, neighDoomed env address e.2 = true :=
            ⟨d, List.mem_cons_self, hdoomed⟩
          rw [htimers, htwice, if_pos hany]
          split_ifs
          · rfl
          · rfl
      · rw [if_neg hdoomed]
        obtain ⟨hcells, htasks, htimers⟩ := ih node
        refine ⟨fun c => ?_, htasks, ?_⟩
        · rw [hcells]
          simp [hdoomed]
        · have hany : (∃ e ∈ d :: cs, neighDoomed env address e.2 = true) ↔
              ∃ e ∈ cs, neighDoomed env address e.2 = true := by
            simp [hdoomed]
          simp only [htimers, hany]

theorem neighDelete_effect (conf : NodeConf) (env : Env) (a : AodvAddress) (node : RouteNode) :
    (∀ c, c ∈ (neighDelete conf env (some a) node).node.neighs.cells ↔
      c ∈ node.neighs.cells ∧ neighDoomed env (some a) c.2 = false) ∧
    (neighDelete conf env (some a) node).node.tasks = node.tasks ∧
    (neighDelete conf env (some a) node).node.timers =
      if ∃ d ∈ node.neighs.cells, neighDoomed env (some a) d.2 = true then node.kept.timers
      else node.timers := by
  obtain ⟨hcells, htasks, htimers⟩ :=
    neighDeleteLoop_effect conf env (some a) node.neighs.cells node
  refine ⟨fun c => (hcells c).trans (and_congr_right fun hc => ?_), htasks, htimers⟩
  constructor
  · intro hall
    by_contra hdoomed
    exact hall c hc (by simpa using hdoomed) rfl
  · intro hkept d hd hdoomed heq
    have hsame : c.2 = d.2 := by
      refine HeapList.eq_of_mem (p := c.1) hc ?_
      rw [heq]
      exact hd
    rw [hsame, hdoomed] at hkept
    cases hkept

structure NeighsUntouched (node node' : RouteNode) : Prop where
  neighs : node'.neighs = node.neighs
  tasks : node'.tasks = node.tasks
  times : ∀ a, timesFor a node'.timers = timesFor a node.timers

theorem sendRequest_neighsUntouched (dev : RouteDev) {retry : RouteTask}
    (h : retry.subType ≠ .neighbor) :
    NeighsUntouched node (sendRequest conf env dev retry node).node := by
  unfold sendRequest
  split_ifs
  · exact ⟨rfl, rfl, fun _ => rfl⟩
  · exact ⟨rfl, rfl, fun _ => rfl⟩
  · exact ⟨rfl, rfl, fun _ => rfl⟩
  · generalize routeLookup env retry.dest.address node.routes = dst
    dsimp only
    generalize routeLookup env dev.address.address dst.1 = own
    obtain ⟨routes, own⟩ := own
    cases own with
    | none => exact ⟨rfl, rfl, fun _ => rfl⟩
    | some own =>
        dsimp only
        split_ifs
        · exact ⟨rfl, rfl, fun _ => rfl⟩
        · exact ⟨rfl, rfl, fun _ => timesFor_enqueue_of_ne h⟩

theorem handleMgmt_neighsUntouched {task : RouteTask} {done : Done} (hty : task.subType ≠ .neighbor)
    (h : handleMgmt conf env task node = some done) : NeighsUntouched node done.node := by
  unfold handleMgmt at h
  split at h
  · obtain rfl := Option.some.inj h
    exact ⟨rfl, rfl, fun _ => timesFor_insert_of_ne (by decide)⟩
  · unfold sendHello at h
    split_ifs at h
    · obtain rfl := Option.some.inj h
      exact ⟨rfl, rfl, fun _ => rfl⟩
    · obtain rfl := Option.some.inj h
      exact ⟨rfl, rfl, fun _ => rfl⟩
    · obtain ⟨p, -, h⟩ := Option.bind_eq_some_iff.mp h
      obtain ⟨my, -, h⟩ := Option.bind_eq_some_iff.mp h
      obtain rfl := Option.some.inj h
      exact ⟨rfl, rfl, fun _ => timesFor_insert_of_ne (by decide)⟩
  · rename_i hneigh
    exact absurd hneigh hty
  · obtain rfl := Option.some.inj h
    exact ⟨rfl, rfl, fun _ => rfl⟩
  · split at h
    · obtain rfl := Option.some.inj h
      exact sendRequest_neighsUntouched _ hty
    · obtain rfl := Option.some.inj h
      exact ⟨rfl, rfl, fun _ => rfl⟩
  · obtain rfl := Option.some.inj h
    exact ⟨rfl, rfl, fun _ => rfl⟩

theorem expiries_signal_perm (env : Env) (node : RouteNode) (a : U32) :
    (timerQueueSignal env node).expiries a |>.Perm (node.expiries a) := by
  simp only [RouteNode.expiries, timerQueueSignal, List.filterMap_append, timesFor_append]
  have hdue : ((node.timers.filter fun task => timeBeforeEq task.time env.now).map
      Task.mgmt).filterMap Task.mgmt? =
        node.timers.filter fun task => timeBeforeEq task.time env.now := by
    rw [List.filterMap_map]
    exact List.filterMap_some
  have hsplit : (timesFor a (node.timers.filter fun task => timeBeforeEq task.time env.now) ++
      timesFor a (node.timers.filter fun task => !timeBeforeEq task.time env.now)).Perm
        (timesFor a node.timers) := by
    rw [← timesFor_append]
    exact ((List.filter_append_perm _ node.timers).filter _).map _
  rw [hdue, ← List.append_assoc]
  refine List.perm_append_comm.trans ?_
  rw [← List.append_assoc]
  exact hsplit.append_right _

end Steps

/-! ## What a step keeps -/

section Kept

variable {conf : NodeConf} {env : Env} {w : Watch} {node' : RouteNode}

theorem oneTimerEach_congr (hone : OneTimerEach w) (hneighs : node'.neighs = w.node.neighs)
    (hsame : ∀ a, (node'.expiries a).Perm (w.node.expiries a)) :
    OneTimerEach ⟨node', w.heardAt⟩ := by
  intro c hc
  have hperm := hsame c.2.address.address
  rw [hone c (hneighs ▸ hc)] at hperm
  exact List.perm_singleton.mp hperm

/-- The neighbour with the hardware address of a HELLO gets its timer restarted. -/
theorem oneTimerEach_restart_iff {neigh : RouteNeigh} (hone : OneTimerEach w)
    (hneighs : node'.neighs = w.node.neighs)
    (htimers : node'.timers = restartTimers conf env neigh.address w.node.timers)
    (htasks : node'.tasks.filterMap Task.mgmt? = w.node.tasks.filterMap Task.mgmt?) :
    OneTimerEach ⟨node', w.heardAt⟩ ↔ Spares w.node neigh.address.address ∧
      ∀ c ∈ w.node.neighs.cells, c.2.address.address = neigh.address.address →
        RestartOk conf env w.node neigh.address.address (w.heardAt c.1 + neighborDelay) := by
  constructor
  · intro h
    refine ⟨fun c hc hne => ?_, fun c hc heq => ?_⟩
    · exact (expiries_restart_other_iff htimers htasks hne (hone c hc)).mp (h c (hneighs ▸ hc))
    · apply (expiries_restart_self_iff htimers htasks).mp
      rw [← heq]
      exact h c (hneighs ▸ hc)
  · rintro ⟨hspares, hrestart⟩ c hc
    have hc' : c ∈ w.node.neighs.cells := hneighs ▸ hc
    by_cases heq : c.2.address.address = neigh.address.address
    · rw [heq]
      exact (expiries_restart_self_iff htimers htasks).mpr (hrestart c hc' heq)
    · exact (expiries_restart_other_iff htimers htasks heq (hone c hc')).mpr (hspares c hc' heq)

theorem oneTimerEach_renewed_iff {task : PduTask} {node : RouteNode} {p : ℕ}
    (hone : OneTimerEach w) (hrenewed : Renewed conf env task node node' p)
    (hnode : node.neighs = w.node.neighs ∧ node.timers = w.node.timers)
    (htasks : node'.tasks.filterMap Task.mgmt? = w.node.tasks.filterMap Task.mgmt?) :
    OneTimerEach ⟨node', Function.update w.heardAt p env.now⟩ ↔
      Spares w.node task.header.src.address ∧
      RestartOk conf env w.node task.header.src.address (env.now + neighborDelay) ∧
      ∀ c ∈ w.node.neighs.cells, c.2.address.address = task.header.src.address → c.1 ≠ p →
        w.heardAt c.1 = env.now := by
  obtain ⟨neigh', haddr', hcells⟩ := hrenewed.cells
  obtain ⟨address, haddr, htimers⟩ := hrenewed.timers
  have hold := hrenewed.address
  rw [hnode.1] at hcells hold
  rw [hnode.2] at htimers
  have hself : ∀ time, node'.expiries task.header.src.address = [time] ↔
      RestartOk conf env w.node task.header.src.address time := by
    intro time
    rw [← haddr]
    exact expiries_restart_self_iff htimers htasks
  constructor
  · intro h
    have hnew : node'.expiries task.header.src.address = [env.now + neighborDelay] := by
      have hp := h (p, neigh') ((hcells _).mpr (.inl rfl))
      simpa [haddr'] using hp
    have hrest : ∀ c ∈ w.node.neighs.cells, c.1 ≠ p →
        node'.expiries c.2.address.address = [w.heardAt c.1 + neighborDelay] := by
      intro c hc hne
      have hp := h c ((hcells c).mpr (.inr ⟨hne, hc⟩))
      simpa [Function.update_of_ne hne] using hp
    refine ⟨fun c hc hne => ?_, (hself _).mp hnew, fun c hc heq hne => ?_⟩
    · have hcp : c.1 ≠ p := by
        rintro rfl
        exact hne (hold c.2 hc)
      exact (expiries_restart_other_iff htimers htasks (haddr ▸ hne) (hone c hc)).mp
        (hrest c hc hcp)
    · have htwo := hrest c hc hne
      rw [heq, hnew] at htwo
      exact ((BitVec.add_left_inj neighborDelay).mp (List.singleton_inj.mp htwo)).symm
  · rintro ⟨hspares, hrestart, hothers⟩ c hc
    have hnew := (hself _).mpr hrestart
    rcases (hcells c).mp hc with rfl | ⟨hne, hc⟩
    · simpa [haddr'] using hnew
    · change node'.expiries _ = [Function.update w.heardAt p env.now c.1 + neighborDelay]
      rw [Function.update_of_ne hne]
      by_cases heq : c.2.address.address = task.header.src.address
      · rw [hothers c hc heq hne, heq]
        exact hnew
      · exact (expiries_restart_other_iff htimers htasks (haddr ▸ heq) (hone c hc)).mpr
          (hspares c hc heq)

theorem neighDoomed_some_iff {a : AodvAddress} {neigh : RouteNeigh} :
    neighDoomed env (some a) neigh = true ↔
      neigh.address.address = a.address ∧ timeBefore neigh.lifetime env.now = true := by
  simp [neighDoomed]

section NeighborTask

variable {task : RouteTask} {tasks : List Task}

theorem expiries_neighbor_task {node : RouteNode} (htasks : node.tasks = .mgmt task :: tasks)
    (hty : task.subType = .neighbor) (a : U32) :
    node.expiries a = timesFor a node.timers ++
      ((if a = task.src.address then [task.time] else []) ++
        timesFor a (tasks.filterMap Task.mgmt?)) := by
  rw [RouteNode.expiries, htasks]
  by_cases ha : a = task.src.address
  · simp [timesFor, Task.mgmt?, givesUp, hty, ha]
  · simp [timesFor, Task.mgmt?, givesUp, hty, ha, Ne.symm ha]

theorem length_timesFor_kept_le (node : RouteNode) (a : U32) :
    (timesFor a node.kept.timers).length ≤ (timesFor a node.timers).length := by
  simp only [timesFor, List.length_map]
  exact (List.filter_sublist.filter _).length_le

/-- Its neighbour is left with fewer timers, whether or not it was given up. -/
theorem length_expiries_dropped_lt (conf : NodeConf) (env : Env) {node : RouteNode}
    (htasks : node.tasks = .mgmt task :: tasks) (hty : task.subType = .neighbor) :
    ((neighDelete conf env (some task.src) { node with tasks := tasks }).node.expiries
      task.src.address).length < (node.expiries task.src.address).length := by
  obtain ⟨-, htasks', htimers⟩ :=
    neighDelete_effect conf env task.src { node with tasks := tasks }
  have hless : (timesFor task.src.address (neighDelete conf env (some task.src)
      { node with tasks := tasks }).node.timers).length ≤
        (timesFor task.src.address node.timers).length := by
    rw [htimers]
    split_ifs
    · exact length_timesFor_kept_le { node with tasks := tasks } task.src.address
    · exact le_rfl
  rw [expiries_neighbor_task htasks hty, if_pos rfl, RouteNode.expiries, htasks']
  simp only [List.length_append, List.length_singleton]
  omega

theorem oneTimerEach_dropped_iff (hone : OneTimerEach w)
    (htasks : w.node.tasks = .mgmt task :: tasks) (hty : task.subType = .neighbor) :
    OneTimerEach ⟨(neighDelete conf env (some task.src) { w.node with tasks := tasks }).node,
        w.heardAt⟩ ↔
      (∀ c ∈ w.node.neighs.cells, c.2.address.address = task.src.address →
        timeBefore c.2.lifetime env.now = true) ∧
      ((∃ c ∈ w.node.neighs.cells, c.2.address.address = task.src.address) →
        Spares w.node task.src.address) := by
  have hfewer := length_expiries_dropped_lt conf env htasks hty
  obtain ⟨hcells, htasks', htimers⟩ :=
    neighDelete_effect conf env task.src { w.node with tasks := tasks }
  generalize (neighDelete conf env (some task.src) { w.node with tasks := tasks }).node = node'
    at hfewer hcells htasks' htimers ⊢
  have hother : ∀ b, b ≠ task.src.address →
      RouteNode.expiries { w.node with tasks := tasks } b = w.node.expiries b := by
    intro b hb
    rw [expiries_neighbor_task htasks hty, if_neg hb]
    rfl
  constructor
  · intro h
    have hover : ∀ c ∈ w.node.neighs.cells, c.2.address.address = task.src.address →
        timeBefore c.2.lifetime env.now = true := by
      intro c hc haddr
      by_contra hlive
      -- The task was the one entry for this neighbour, which stays without any.
      have hkeep : c ∈ node'.neighs.cells :=
        (hcells c).mpr ⟨hc, Bool.eq_false_iff.mpr fun hd => hlive (neighDoomed_some_iff.mp hd).2⟩
      rw [← haddr, h c hkeep, hone c hc] at hfewer
      exact lt_irrefl _ hfewer
    refine ⟨hover, ?_⟩
    rintro ⟨c₀, hc₀, haddr₀⟩ c hc hne
    have hany : ∃ d ∈ w.node.neighs.cells, neighDoomed env (some task.src) d.2 = true :=
      ⟨c₀, hc₀, neighDoomed_some_iff.mpr ⟨haddr₀, hover c₀ hc₀ haddr₀⟩⟩
    have hkeep : c ∈ node'.neighs.cells :=
      (hcells c).mpr ⟨hc, Bool.eq_false_iff.mpr fun hd => hne (neighDoomed_some_iff.mp hd).1⟩
    rw [if_pos hany] at htimers
    have hafter := h c hkeep
    rw [RouteNode.expiries, htimers, htasks'] at hafter
    exact (expiries_kept_iff ((hother _ hne).trans (hone c hc))).mp hafter
  · rintro ⟨hover, hspares⟩ c hc
    obtain ⟨hc, hlive⟩ := (hcells c).mp hc
    have hne : c.2.address.address ≠ task.src.address := by
      intro haddr
      rw [neighDoomed_some_iff.mpr ⟨haddr, hover c hc haddr⟩] at hlive
      cases hlive
    have hbefore := (hother _ hne).trans (hone c hc)
    rw [RouteNode.expiries, htimers, htasks']
    split_ifs with hany
    · obtain ⟨d, hd, hdoomed⟩ := hany
      have hspared := hspares ⟨d, hd, (neighDoomed_some_iff.mp hdoomed).1⟩ c hc hne
      exact (expiries_kept_iff hbefore).mpr hspared
    · exact hbefore

end NeighborTask

theorem lastHop_tasks (conf : NodeConf) (env : Env) (task : PduTask) (node : RouteNode)
    (tasks : List Task) :
    (lastHop conf env task { node with tasks := tasks }).2 = (lastHop conf env task node).2 := by
  unfold lastHop neighInsert
  cases neighLookup task node.neighs with
  | some hop => rfl
  | none =>
      dsimp only
      split_ifs
      · rfl
      · rfl

section Thread

variable {tasks : List Task} {done : Done}

theorem HellosOnly.rest {task : Task} (h : HellosOnly w.node)
    (htasks : w.node.tasks = task :: tasks) (hnode : node'.tasks = tasks) : HellosOnly node' := by
  intro task' htask'
  apply h task'
  rw [htasks]
  exact List.mem_cons_of_mem task (hnode ▸ htask')

theorem steady_pdu {task : PduTask} {w' : Watch} (hone : OneTimerEach w)
    (hhellos : HellosOnly w.node) (htasks : w.node.tasks = .pdu task :: tasks)
    (hdone : handleTask conf env (.pdu task) { w.node with tasks := tasks } = some done)
    (hw' : (match w.node.heardFrom conf env with
      | some p => ⟨done.node, Function.update w.heardAt p env.now⟩
      | none => ⟨done.node, w.heardAt⟩) = w') :
    (OneTimerEach w' ↔ Steady conf (env, .thread) w) ∧ HellosOnly w'.node := by
  obtain ⟨dev, reply, hdev, hty, hdata, hboth, hsrc⟩ :=
    hhellos task (htasks ▸ List.mem_cons_self)
  obtain ⟨reply', done', hhello, hsame⟩ := handlePdu_hello hdev hty hdata hboth hsrc hdone
  obtain ⟨htasks', heffect⟩ := rxHello_effect hhello
  rw [lastHop_tasks] at heffect
  have hmgmt : done.node.tasks.filterMap Task.mgmt? = w.node.tasks.filterMap Task.mgmt? := by
    rw [hsame, htasks', htasks]
    rfl
  have hrest : HellosOnly done.node := hhellos.rest htasks (hsame ▸ htasks')
  simp only [Steady, RouteNode.heardFrom, htasks] at hw' ⊢
  rcases heffect with ⟨hnone, hneighs, htimers⟩ | ⟨hop, hhop, hrenewed⟩
  · simp only [hnone, Option.map_none] at hw' ⊢
    subst hw'
    refine ⟨iff_of_true (oneTimerEach_congr hone (hsame ▸ hneighs) fun a => ?_) trivial, hrest⟩
    rw [RouteNode.expiries, hmgmt, hsame, htimers]
    exact List.Perm.refl _
  · simp only [hhop, Option.map_some] at hw' ⊢
    subst hw'
    have hdone' : Renewed conf env task { w.node with tasks := tasks } done.node hop.1 :=
      hsame ▸ hrenewed
    exact ⟨oneTimerEach_renewed_iff hone hdone' ⟨rfl, rfl⟩ hmgmt, hrest⟩

/-- It works on a NEIGHBOR task or on one that concerns no timer of a neighbour. -/
theorem steady_mgmt {task : RouteTask} (hone : OneTimerEach w) (hhellos : HellosOnly w.node)
    (htasks : w.node.tasks = .mgmt task :: tasks)
    (hdone : handleTask conf env (.mgmt task) { w.node with tasks := tasks } = some done) :
    (OneTimerEach ⟨done.node, w.heardAt⟩ ↔ Steady conf (env, .thread) w) ∧
      HellosOnly done.node := by
  simp only [Steady, htasks]
  by_cases hty : task.subType = .neighbor
  · have hdrop : done = neighDelete conf env (some task.src) { w.node with tasks := tasks } := by
      simp only [handleTask, handleMgmt, hty] at hdone
      exact (Option.some.inj hdone).symm
    subst hdrop
    rw [if_pos hty]
    exact ⟨oneTimerEach_dropped_iff hone htasks hty,
      hhellos.rest htasks (neighDelete_effect conf env task.src _).2.1⟩
  · have huntouched := handleMgmt_neighsUntouched hty hdone
    rw [if_neg hty]
    refine ⟨iff_of_true (oneTimerEach_congr hone huntouched.neighs fun a => ?_) trivial,
      hhellos.rest htasks huntouched.tasks⟩
    have hskip : timesFor a [task] = [] := by simp [timesFor, givesUp, hty]
    have hcons : w.node.tasks.filterMap Task.mgmt? = [task] ++ tasks.filterMap Task.mgmt? := by
      rw [htasks]
      rfl
    rw [RouteNode.expiries, RouteNode.expiries, huntouched.times, huntouched.tasks, hcons,
      timesFor_append, hskip]
    exact List.Perm.refl _

theorem steady_thread {w' : Watch} (hone : OneTimerEach w) (hhellos : HellosOnly w.node)
    (hstep : Watch.step conf (env, .thread) w = some w') :
    (OneTimerEach w' ↔ Steady conf (env, .thread) w) ∧ HellosOnly w'.node := by
  obtain ⟨node', hnode', hw'⟩ := Option.map_eq_some_iff.mp hstep
  obtain ⟨done, hdone, rfl⟩ := Option.map_eq_some_iff.mp hnode'
  obtain ⟨htasks, hsame⟩ | ⟨task, tasks, htasks, hdone⟩ := kthread_cases hdone
  · simp only [RouteNode.heardFrom, htasks, hsame] at hw'
    subst hw'
    simp only [Steady, htasks]
    exact ⟨iff_of_true hone trivial, hhellos⟩
  · cases task with
    | pdu task => exact steady_pdu hone hhellos htasks hdone hw'
    | mgmt task =>
        simp only [RouteNode.heardFrom, htasks] at hw'
        subst hw'
        exact steady_mgmt hone hhellos htasks hdone

end Thread

theorem steady_step {e : Env × HelloEvent} {w' : Watch} (hone : OneTimerEach w)
    (hhellos : HellosOnly w.node) (hstep : Watch.step conf e w = some w') :
    (OneTimerEach w' ↔ Steady conf e w) ∧ HellosOnly w'.node := by
  obtain ⟨env, event⟩ := e
  cases event with
  | thread => exact steady_thread hone hhellos hstep
  | signal =>
      obtain rfl := Option.some.inj hstep
      refine ⟨iff_of_true (oneTimerEach_congr hone rfl fun a => ?_) trivial, ?_⟩
      · exact expiries_signal_perm env w.node a
      · intro task htask
        rcases List.mem_append.mp htask with htask | htask
        · exact hhellos task htask
        · obtain ⟨timer, -, heq⟩ := List.mem_map.mp htask
          cases heq
  | hello dev hwAddr src daddr ttl reply =>
      obtain ⟨node', tasks, hnode', hneighs, htimers, htasks, hmgmt, hkept⟩ :=
        hello_input conf env w.node dev hwAddr src daddr ttl reply
      simp only [Watch.step, hnode', Option.map_some, Option.some.injEq] at hstep
      subst hstep
      have hmgmt' : node'.tasks.filterMap Task.mgmt? = w.node.tasks.filterMap Task.mgmt? := by
        rw [htasks, List.filterMap_append, hmgmt, List.append_nil]
      refine ⟨?_, hkept hhellos⟩
      simp only [Steady]
      cases hfound : neighLookupMac hwAddr w.node.neighs with
      | none =>
          refine iff_of_true (oneTimerEach_congr hone hneighs fun a => ?_) trivial
          rw [RouteNode.expiries, hmgmt', htimers, hfound]
          exact List.Perm.refl _
      | some hop =>
          rw [hfound] at htimers
          exact oneTimerEach_restart_iff hone hneighs htimers hmgmt'

end Kept

/-! ## Runs from the start of the module -/

def Watch.boot (env : Env) (order : ByteOrder) (supportGateway : Bool) (localIp localMask : U32)
    (devs : List RouteDev) : Watch :=
  ⟨(Haodv.boot env order supportGateway localIp localMask devs).2, fun _ => 0⟩

/-- In every state of a run of HELLO traffic each neighbour has its one timer, exactly when all
steps of the run are steady. -/
theorem one_timer_each_iff (env : Env) (order : ByteOrder) (supportGateway : Bool)
    (localIp localMask : U32) (devs : List RouteDev) (events : List (Env × HelloEvent)) :
    (∀ w, Visits (Watch.step (boot env order supportGateway localIp localMask devs).1)
        (.boot env order supportGateway localIp localMask devs) events w → OneTimerEach w) ↔
      Throughout (Watch.step (boot env order supportGateway localIp localMask devs).1)
        (Steady (boot env order supportGateway localIp localMask devs).1) events
        (.boot env order supportGateway localIp localMask devs) := by
  have hbooted := boot_booted env order supportGateway localIp localMask devs
  refine visits_iff (A := fun w => HellosOnly w.node) steady_step events ?_ ?_
  · intro c hc
    simp [Watch.boot, hbooted.neighs] at hc
  · intro task htask
    simp [Watch.boot, hbooted.tasks] at htask

def helloFrom (now src : U32) : List (Env × HelloEvent) :=
  [(.plenty now, .hello (lanDev 0x0a000001) (src.zeroExtend 48) src 0xffffffff 1
      (helloPdu .little src 1)), (.plenty now, .thread)]

/-- A second neighbour, heard while the first one's timer is pending, gets none. -/
theorem second_neighbour_without_timer :
    ∃ w, Visits (Watch.step (lanNode .little true).1) ⟨(lanNode .little true).2, fun _ => 0⟩
        (helloFrom 1000 0x0a000002 ++ helloFrom 1100 0x0a000003) w ∧
      w.node.neighs.cells.map (fun c => c.2.address.address) = [0x0a000003, 0x0a000002] ∧
      w.node.expiries 0x0a000003 = [] ∧ ¬OneTimerEach w := by
  exact exists_visits (by decide +kernel)

end Haodv
end WirelessMesh
