import WirelessMesh.Lib.KeyedQueue
import WirelessMesh.Lib.Runs
import WirelessMesh.Maodv.Task

/-!
# A HELLO and the timer of its neighbour

A neighbour that was not heard for some time is given up by its NEIGHBOR timer, and
`_engine_rx_hello` sets this timer again. It deletes the old timer first, but with the two
arguments of `timer_delete` exchanged: what is deleted are timers whose type is the
neighbour's address. The old timer stays, and the queue refuses the new one, which has the
same type and id.
-/

namespace WirelessMesh
namespace Maodv

open Routes KeyedQueue Machine

/-! ## The engine as a machine -/

inductive Event where
  | input (dev : RouteDev) (frame : Frame)
  | output (daddr : U32)
  | signal
  | work

/-- One event in its surroundings. An engine that faulted takes no further step. -/
def step (conf : EngineConf) : Env × Event → RouteEngine → Option RouteEngine
  | (env, .input dev frame), e => some (ipPacketInput env dev frame e)
  | (env, .output daddr), e => some (ipPacketOutput conf env daddr e).2.engine
  | (env, .signal), e => some (timerQueueSignal env e)
  | (env, .work), e => (kthread conf env e).map Done.engine

/-! ## The timer queue -/

def RouteTask.key (task : RouteTask) : U32 × U32 := (task.type, task.id)

theorem timerEnqueue_eq (timer : RouteTask) (timers : List RouteTask) :
    timerEnqueue timer timers = enqueue RouteTask.key timer timers := by
  rw [enqueue_eq_any]
  simp only [timerEnqueue, RouteTask.key, Prod.mk.injEq, Bool.decide_and, beq_eq_decide]

theorem timerDelete_eq (type id : U32) (timers : List RouteTask) :
    timerDelete type id timers = delete RouteTask.key (type, id) timers := by
  apply List.filter_congr
  intro task _
  rw [Bool.eq_iff_iff]
  simp [RouteTask.key, or_comm]

def neighborTimers (n : U32) (timers : List RouteTask) : List RouteTask :=
  pending RouteTask.key (taskNeighbor, n) timers

def otherTimers (n : U32) (timers : List RouteTask) : List RouteTask :=
  rest RouteTask.key (taskNeighbor, n) timers

def helloDelay : U32 := helloInterval * (1 + allowedHelloLoss) + 100

def neighborTimer (env : Env) (n : U32) : RouteTask where
  type := taskNeighbor
  id := n
  time := env.now + helloDelay
  dstIp := n
  srcIp := n
  dev := none
  ttl := 0
  retries := 0
  data := .none

def OnTime (now n : U32) (timers : List RouteTask) : Prop :=
  (neighborTimers n timers).map RouteTask.time = [now + helloDelay]

instance (now n : U32) (timers : List RouteTask) : Decidable (OnTime now n timers) :=
  inferInstanceAs (Decidable (_ = _))

/-- What a HELLO of `n` at `now` should do to the queue. Timers are compared by their content: one
that is taken out and put in again with the same content is the same. -/
structure Refreshed (now n : U32) (before after : List RouteTask) : Prop where
  onTime : OnTime now n after
  others : otherTimers n after = otherTimers n before

def helloTimers (env : Env) (n : U32) (timers : List RouteTask) : List RouteTask :=
  (timerInsert env taskNeighbor n helloDelay (timerDelete n taskNeighbor timers)).1

section Queue

variable {env : Env} {n : U32} {timers : List RouteTask}

theorem neighborTimers_timerInsert :
    neighborTimers n (timerInsert env taskNeighbor n helloDelay timers).1 =
      if neighborTimers n timers = [] ∧ env.mem .timer = true then
        [neighborTimer env n]
      else neighborTimers n timers := by
  unfold timerInsert
  by_cases hmem : env.mem .timer = true
  · simp only [hmem, if_true, and_true]
    rw [timerEnqueue_eq]
    exact pending_enqueue RouteTask.key (neighborTimer env n) timers
  · simp [hmem]

variable (env n timers) in
theorem otherTimers_timerInsert :
    otherTimers n (timerInsert env taskNeighbor n helloDelay timers).1 = otherTimers n timers := by
  unfold timerInsert
  split_ifs
  · rw [timerEnqueue_eq]
    exact rest_enqueue RouteTask.key (neighborTimer env n) timers
  · rfl

theorem onTime_timerInsert_iff :
    OnTime env.now n (timerInsert env taskNeighbor n helloDelay timers).1 ↔
      (neighborTimers n timers = [] ∧ env.mem .timer = true) ∨ OnTime env.now n timers := by
  rw [OnTime, neighborTimers_timerInsert]
  by_cases hset : neighborTimers n timers = [] ∧ env.mem .timer = true
  · simp [hset, neighborTimer]
  · rw [if_neg hset]
    exact (or_iff_right hset).symm

/-- The exchanged arguments name the right timers only for the address that is the number of
the task type. -/
theorem refreshed_helloTimers_iff : Refreshed env.now n timers (helloTimers env n timers) ↔
    if n = taskNeighbor then env.mem .timer = true
    else pending RouteTask.key (n, taskNeighbor) timers = [] ∧
      ((neighborTimers n timers = [] ∧ env.mem .timer = true) ∨ OnTime env.now n timers) := by
  have hsplit : Refreshed env.now n timers (helloTimers env n timers) ↔
      otherTimers n (timerDelete n taskNeighbor timers) = otherTimers n timers ∧
      ((neighborTimers n (timerDelete n taskNeighbor timers) = [] ∧ env.mem .timer = true) ∨
        OnTime env.now n (timerDelete n taskNeighbor timers)) := by
    rw [← onTime_timerInsert_iff, ← otherTimers_timerInsert env]
    exact ⟨fun h => ⟨h.others, h.onTime⟩, fun h => ⟨h.2, h.1⟩⟩
  rw [hsplit, timerDelete_eq]
  by_cases hn : n = taskNeighbor
  · subst hn
    have hgone : neighborTimers taskNeighbor
        (delete RouteTask.key (taskNeighbor, taskNeighbor) timers) = [] := pending_delete_self
    have hothers : otherTimers taskNeighbor
        (delete RouteTask.key (taskNeighbor, taskNeighbor) timers) =
          otherTimers taskNeighbor timers := rest_delete_self
    simp [hgone, hothers, OnTime]
  · have hkey : (taskNeighbor, n) ≠ (n, taskNeighbor) := fun h => hn (Prod.mk.inj h).2
    have hkept : neighborTimers n (delete RouteTask.key (n, taskNeighbor) timers) =
        neighborTimers n timers := pending_delete_of_ne hkey
    have hothers : otherTimers n (delete RouteTask.key (n, taskNeighbor) timers) =
        otherTimers n timers ↔ pending RouteTask.key (n, taskNeighbor) timers = [] :=
      rest_delete_eq_iff hkey
    rw [if_neg hn, hothers, hkept, OnTime, hkept]
    rfl

end Queue

/-! ## A HELLO in a run -/

def RouteTask.hello (task : RouteTask) : Option AodvPduReply :=
  match task.data with
  | .reply reply => if task.type = taskRrep ∧ reply.srcIp = reply.dstIp then some reply else none
  | _ => none

def RouteEngine.nextHello (e : RouteEngine) : Option AodvPduReply :=
  e.tasks.head?.bind RouteTask.hello

def Recordable (env : Env) (n : U32) (e : RouteEngine) : Prop :=
  (neighFind n e.neighs).isSome = true ∨ env.mem .neigh = true

instance (env : Env) (n : U32) (e : RouteEngine) : Decidable (Recordable env n e) :=
  inferInstanceAs (Decidable (_ ∨ _))

section Handling

variable {conf : EngineConf} {env : Env} {e e' : RouteEngine} {reply : AodvPduReply}

theorem rxHello_timers {packet : RouteTask} {done : Done}
    (h : rxHello conf env packet reply e = some done) : done.engine.timers =
      if Recordable env reply.dstIp e then helloTimers env reply.dstIp e.timers else e.timers := by
  unfold rxHello at h
  cases hn : neighFind reply.dstIp e.neighs with
  | none =>
      simp only [hn, neighInsert, Option.isSome_none, Bool.false_eq_true, if_false] at h
      by_cases hm : env.mem .neigh = true
      · simp only [hm, if_true, Option.map_some] at h
        obtain ⟨t', _, h⟩ := Option.bind_eq_some_iff.mp h
        obtain rfl := Option.some.inj h
        rw [if_pos (show Recordable env reply.dstIp e from .inr hm)]
        rfl
      · obtain rfl := by simpa [hm] using h
        rw [if_neg]
        simp [Recordable, hn, hm]
  | some c =>
      obtain ⟨q, neigh⟩ := c
      have hip : neigh.ip = reply.dstIp := by simpa using HeapList.of_find? hn
      simp only [hn] at h
      obtain ⟨t', _, h⟩ := Option.bind_eq_some_iff.mp h
      obtain rfl := Option.some.inj h
      rw [if_pos (show Recordable env reply.dstIp e from .inl (by simp [hn])), ← hip]
      rfl

theorem handleTask_hello {task : RouteTask} (h : task.hello = some reply) :
    handleTask conf env task e =
      (rxHello conf env task reply e).map fun done => ⟨0, done.engine, []⟩ := by
  unfold RouteTask.hello at h
  cases hdata : task.data with
  | reply r =>
      simp only [hdata] at h
      split_ifs at h with hhello
      obtain rfl := Option.some.inj h
      obtain ⟨htype, hsame⟩ := hhello
      have hnot : ¬task.type = taskRreq := by rw [htype]; decide
      rw [handleTask, if_neg hnot, if_pos htype, hdata]
      simp only [rxReply, checkReply, hsame, beq_self_eq_true, if_true]
      cases rxHello conf env task r e with
      | none => rfl
      | some done => rfl
  | none => simp [hdata] at h
  | request r => simp [hdata] at h
  | error r => simp [hdata] at h
  | replyAck => simp [hdata] at h

theorem step_work_timers (hhello : e.nextHello = some reply)
    (hstep : step conf (env, .work) e = some e') : e'.timers =
      if Recordable env reply.dstIp e then helloTimers env reply.dstIp e.timers else e.timers := by
  obtain ⟨task, hhead, hhello⟩ := Option.bind_eq_some_iff.mp hhello
  obtain ⟨rest, htasks⟩ := List.head?_eq_some_iff.mp hhead
  simp only [step, kthread, htasks, handleTask_hello hhello] at hstep
  obtain ⟨done, hdone, rfl⟩ := Option.map_eq_some_iff.mp hstep
  obtain ⟨done', hdone', hdone⟩ := Option.bind_eq_some_iff.mp hdone
  obtain ⟨done'', hrx, rfl⟩ := Option.map_eq_some_iff.mp hdone'
  obtain rfl := Option.some.inj hdone
  change done''.engine.timers = _
  exact rxHello_timers hrx

end Handling

/-- A HELLO that is handled sets the timer of its neighbour again. -/
def HelloRefreshes (conf : EngineConf) : Env × Event → RouteEngine → Prop
  | (env, .work), e => ∀ reply, e.nextHello = some reply →
      ∀ e', step conf (env, .work) e = some e' →
        Refreshed env.now reply.dstIp e.timers e'.timers
  | (_, .input _ _), _ => True
  | (_, .output _), _ => True
  | (_, .signal), _ => True

def Renewable (env : Env) (n : U32) (e : RouteEngine) : Prop :=
  if Recordable env n e then
    if n = taskNeighbor then env.mem .timer = true
    else pending RouteTask.key (n, taskNeighbor) e.timers = [] ∧
      ((neighborTimers n e.timers = [] ∧ env.mem .timer = true) ∨ OnTime env.now n e.timers)
  else OnTime env.now n e.timers

instance (env : Env) (n : U32) (e : RouteEngine) : Decidable (Renewable env n e) :=
  inferInstanceAs (Decidable (ite _ _ _))

/-- Each HELLO finds no timer of its neighbour, or one that was set at this very moment. -/
def HelloTimely : Env × Event → RouteEngine → Prop
  | (env, .work), e => match e.nextHello with
      | none => True
      | some reply => Renewable env reply.dstIp e
  | (_, .input _ _), _ => True
  | (_, .output _), _ => True
  | (_, .signal), _ => True

instance : ∀ ev e, Decidable (HelloTimely ev e)
  | (env, .work), e => match h : e.nextHello with
      | none => .isTrue (by simp [HelloTimely, h])
      | some reply => decidable_of_iff (Renewable env reply.dstIp e) (by simp [HelloTimely, h])
  | (_, .input _ _), _ => .isTrue trivial
  | (_, .output _), _ => .isTrue trivial
  | (_, .signal), _ => .isTrue trivial

theorem helloRefreshes_iff {conf : EngineConf} (ev : Env × Event) (e e' : RouteEngine)
    (hstep : step conf ev e = some e') : HelloRefreshes conf ev e ↔ HelloTimely ev e := by
  obtain ⟨env, event⟩ := ev
  cases event with
  | work =>
      cases hhello : e.nextHello with
      | none => simp [HelloRefreshes, HelloTimely, hhello]
      | some reply =>
          have htimers := step_work_timers hhello hstep
          have hone : HelloRefreshes conf (env, .work) e ↔
              Refreshed env.now reply.dstIp e.timers e'.timers := by
            simp [HelloRefreshes, hhello, hstep]
          simp only [hone, HelloTimely, hhello, Renewable]
          rw [htimers]
          split_ifs with hrec
          · rw [refreshed_helloTimers_iff, if_pos ‹_›]
          · rw [refreshed_helloTimers_iff, if_neg ‹_›]
          · exact ⟨fun h => h.onTime, fun h => ⟨h, rfl⟩⟩
  | input dev frame => exact Iff.rfl
  | output daddr => exact Iff.rfl
  | signal => exact Iff.rfl

/-- The HELLOs of a run all set their timers exactly when each finds the queue in this state. -/
theorem hello_refresh_iff (conf : EngineConf) (events : List (Env × Event)) (e : RouteEngine) :
    Throughout (step conf) (HelloRefreshes conf) events e ↔
      Throughout (step conf) HelloTimely events e :=
  throughout_congr helloRefreshes_iff events e

def helloHeard (now : U32) : List (Env × Event) :=
  [(.plenty now, .input (lanDev 0x0a000001)
      ⟨0x0a000002, 0xffffffff, 1, .reply (helloPdu 0x0a000002 1)⟩), (.plenty now, .work)]

/-- The second HELLO, ten seconds after the first, leaves the timer as it was. -/
theorem hello_keeps_old_timer :
    (∃ e, Visits (step (lanNode true 0x0a000001).1) (lanNode true 0x0a000001).2
        (helloHeard 100 ++ helloHeard 10100) e ∧
      (neighborTimers 0x0a000002 e.timers).map RouteTask.time = [100 + helloDelay]) ∧
    ¬Throughout (step (lanNode true 0x0a000001).1) (HelloRefreshes (lanNode true 0x0a000001).1)
      (helloHeard 100 ++ helloHeard 10100) (lanNode true 0x0a000001).2 := by
  constructor
  · exact exists_visits (by decide +kernel)
  · rw [throughout_congr helloRefreshes_iff]
    decide +kernel

end Maodv
end WirelessMesh
