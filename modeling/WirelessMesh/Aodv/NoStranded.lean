import WirelessMesh.Aodv.Task

/-!
# Which steps strand a packet

A packet that waits for a route to `d` is released or given up by the discovery
for `d`, which lives on in a RESEND_RREQ entry of the timer queue or of the task
queue. The handlers touch these entries and the packet queue in three places: the
start of a discovery, a received RREP, and a repeated request. For each the
condition under which no packet is left without an entry is exact.
-/

namespace WirelessMesh
namespace Aodv

open Routes
open Maodv (EngineConf Env RouteDev RouteTask Frame RouteTable MeshRoute AllocSite timerEnqueue
  timerInsert timerInsertRequest timerDelete timerFind floodInsert neighValid ipTask)

variable {conf : EngineConf} {env : Env} {a a' : State} {done : Done} {task : RouteTask}

def ResendFor (d : U32) (task : RouteTask) : Prop := task.type = taskResendRreq ∧ task.id = d

def Pending (d : U32) (a : State) : Prop :=
  ∃ task, (task ∈ a.timers ∨ task ∈ a.tasks) ∧ ResendFor d task

def NoStranded (a : State) : Prop := ∀ e ∈ a.queue.list, Pending e.daddr a

/-- Entries that repeat a request are filed under the address they ask for. -/
def Filed (a : State) : Prop :=
  ∀ task, task ∈ a.timers ∨ task ∈ a.tasks → task.type = taskResendRreq → task.dstIp = task.id

/-! ## Timers of other kinds -/

theorem mem_timerEnqueue_iff {timer : RouteTask} {timers : List RouteTask} :
    task ∈ timerEnqueue timer timers ↔
      task ∈ timers ∨ (task = timer ∧ ∀ t ∈ timers, ¬(t.type = timer.type ∧ t.id = timer.id)) := by
  unfold timerEnqueue
  split_ifs with h
  · obtain ⟨t, ht, heq⟩ := List.any_eq_true.mp h
    simp only [Bool.and_eq_true, beq_iff_eq] at heq
    constructor
    · exact .inl
    · rintro (hin | ⟨-, hno⟩)
      · exact hin
      · exact absurd heq (hno t ht)
  · have hno : ∀ t ∈ timers, ¬(t.type = timer.type ∧ t.id = timer.id) := by
      intro t ht heq
      exact h (List.any_eq_true.mpr ⟨t, ht, by simpa using heq⟩)
    simp only [List.mem_cons]
    constructor
    · rintro (rfl | hin)
      · exact .inr ⟨rfl, hno⟩
      · exact .inl hin
    · rintro (hin | ⟨rfl, -⟩)
      · exact .inr hin
      · exact .inl rfl

theorem resend_mem_timerInsert {type ip delay : U32} {timers : List RouteTask}
    (htype : type ≠ taskResendRreq) (htask : task.type = taskResendRreq) :
    task ∈ (timerInsert env type ip delay timers).1 ↔ task ∈ timers := by
  unfold timerInsert
  split_ifs
  · rw [mem_timerEnqueue_iff]
    constructor
    · rintro (hin | ⟨rfl, -⟩)
      · exact hin
      · exact absurd htask htype
    · exact .inl
  · rfl

theorem resend_mem_timerDelete {type id : U32} {timers : List RouteTask}
    (htask : task.type = taskResendRreq) :
    task ∈ timerDelete type id timers ↔
      task ∈ timers ∧ ¬(type = taskResendRreq ∧ task.id = id) := by
  simp only [timerDelete, List.mem_filter, Bool.not_eq_true', Bool.and_eq_false_imp, beq_iff_eq,
    beq_eq_false_iff_ne, htask]
  constructor
  · rintro ⟨hin, hno⟩
    refine ⟨hin, ?_⟩
    rintro ⟨rfl, hid⟩
    exact hno hid rfl
  · rintro ⟨hin, hno⟩
    refine ⟨hin, ?_⟩
    rintro hid heq
    exact hno ⟨heq.symm, hid⟩

/-! ## Handlers that leave the discoveries alone -/

/-- No discovery was touched, and packets left the queue if anything. -/
structure Calm (a a' : State) : Prop where
  tasks : a'.tasks = a.tasks
  timers : ∀ task, task.type = taskResendRreq → (task ∈ a'.timers ↔ task ∈ a.timers)
  queue : ∀ e ∈ a'.queue.list, e ∈ a.queue.list

theorem Calm.ofEq (htasks : a'.tasks = a.tasks) (htimers : a'.timers = a.timers)
    (hqueue : a'.queue = a.queue) : Calm a a' :=
  ⟨htasks, fun _ _ => by rw [htimers], fun _ he => hqueue ▸ he⟩

theorem routeUpdate_frame (conf : EngineConf) (env : Env) (ip hop : U32) (metric : U8) (seq : U32)
    (dev : Option RouteDev) (a : State) :
    (routeUpdate conf env ip hop metric seq dev a).1.tasks = a.tasks ∧
      (routeUpdate conf env ip hop metric seq dev a).1.timers = a.timers ∧
      (routeUpdate conf env ip hop metric seq dev a).1.neighs = a.neighs := by
  unfold routeUpdate
  dsimp only
  split_ifs <;> exact ⟨rfl, rfl, rfl⟩

theorem mem_queue_routeUpdate {ip hop : U32} {metric : U8} {seq : U32} {dev : Option RouteDev}
    {e : IpqElement} :
    e ∈ (routeUpdate conf env ip hop metric seq dev a).1.queue.list ↔ e ∈ a.queue.list ∧
      (updateAccepts env hop metric seq a.neighs (routeFind env ip a.routes).2 = true →
        e.daddr ≠ ip) := by
  unfold routeUpdate
  dsimp only
  split_ifs with hacc hmem
  · simpa [hacc, ipqSendIp] using mem_reinject .accept
  · simp [hacc]
  · simp [hacc]

theorem calm_recvHello {packet : RouteTask} {reply : AodvPduReply}
    (h : recvHello conf env packet reply a = some a') : Calm a a' := by
  have htimers : ∀ (ip delay : U32) (task : RouteTask), task.type = taskResendRreq →
      (task ∈ (timerInsert env taskNeighbor ip delay (timerDelete taskNeighbor ip a.timers)).1 ↔
        task ∈ a.timers) := by
    intro ip delay task hty
    rw [resend_mem_timerInsert (by decide) hty, resend_mem_timerDelete hty]
    simp [taskNeighbor, taskResendRreq]
  unfold recvHello at h
  dsimp only at h
  split at h
  · obtain rfl := Option.some.inj h
    exact .ofEq rfl rfl rfl
  · rename_i neigh neighs _
    split_ifs at h with hlink
    · obtain ⟨routes, -, h⟩ := Option.bind_eq_some_iff.mp h
      obtain rfl := Option.some.inj h
      exact ⟨rfl, htimers _ _, fun _ he => he⟩
    · obtain rfl := Option.some.inj h
      exact ⟨rfl, htimers _ _, fun _ he => he⟩

theorem pduRequestReply_frame {request : AodvPduRequest} {b : Bool}
    (h : pduRequestReply conf env request a = some (a', b)) :
    a'.tasks = a.tasks ∧ a'.timers = a.timers ∧ a'.queue = a.queue := by
  have hset : ∀ {routes : RouteTable} {x : Bool},
      some (({ a with routes := routes } : State), x) = some (a', b) →
        ∃ routes, a' = { a with routes := routes } :=
    fun heq => ⟨_, (Prod.mk.inj (Option.some.inj heq)).1.symm⟩
  have hroutes : ∃ routes, a' = { a with routes := routes } := by
    unfold pduRequestReply at h
    dsimp only at h
    generalize (routeFind env request.dstIp a.routes).2 = found at h
    by_cases hsub : conf.checkSubnet request.dstIp = true
    · simp only [hsub, Bool.not_true, Bool.false_eq_true, if_false] at h
      cases found with
      | none => exact hset h
      | some c =>
          dsimp only at h
          split_ifs at h
          · exact hset h
          · exact hset h
          · exact hset h
    · simp only [hsub, Bool.not_false, if_true] at h
      by_cases hg : conf.supportGateway = true
      · simp only [hg, if_true] at h
        cases found with
        | none =>
            obtain ⟨my, -, h⟩ := Option.bind_eq_some_iff.mp h
            split_ifs at h
            exact hset h
        | some c => exact hset h
      · simp only [hg, Bool.false_eq_true, if_false] at h
        cases found with
        | none => exact hset h
        | some c =>
            by_cases hmask : c.2.netmask = conf.broadcastIp
            · simp only [hmask, ne_eq, not_true_eq_false, if_false] at h
              exact hset h
            · simp only [hmask, ne_eq, not_false_eq_true, if_true] at h
              obtain ⟨my, -, h⟩ := Option.bind_eq_some_iff.mp h
              split_ifs at h
              exact hset h
  obtain ⟨routes, rfl⟩ := hroutes
  exact ⟨rfl, rfl, rfl⟩

theorem calm_pduRequestRx {packet : RouteTask} {request : AodvPduRequest}
    (h : pduRequestRx conf env packet request a = some done) : Calm a done.state := by
  unfold pduRequestRx at h
  split_ifs at h with httl
  · obtain rfl := Option.some.inj h
    exact .ofEq rfl rfl rfl
  · have hcheck : ∃ routes, (checkRequest env request packet.srcIp a).1 =
        { a with routes := routes } := by
      unfold checkRequest
      split_ifs
      · exact ⟨a.routes, rfl⟩
      · exact ⟨_, rfl⟩
    obtain ⟨routes, heq⟩ := hcheck
    dsimp only at h
    rw [heq] at h
    split_ifs at h with hok
    · obtain rfl := Option.some.inj h
      exact .ofEq rfl rfl rfl
    · -- the update may release packets; nothing after it touches queue or timers
      obtain ⟨⟨a₂, b⟩, hreply, h⟩ := Option.bind_eq_some_iff.mp h
      obtain ⟨htasks, htimers, hqueue⟩ := pduRequestReply_frame hreply
      obtain ⟨hutasks, hutimers, -⟩ := routeUpdate_frame conf env request.srcIp packet.srcIp
        (request.metric + 1) request.srcSeq packet.dev { a with routes := routes }
      have hdone : done.state.tasks = a₂.tasks ∧ done.state.timers = a₂.timers ∧
          done.state.queue = a₂.queue := by
        dsimp only at h
        split_ifs at h
        · obtain rfl := Option.some.inj h
          exact ⟨rfl, rfl, rfl⟩
        · obtain rfl := Option.some.inj h
          exact ⟨rfl, rfl, rfl⟩
      refine ⟨?_, ?_, ?_⟩
      · rw [hdone.1, htasks]
        exact hutasks
      · intro task _
        rw [hdone.2.1, htimers]
        exact Iff.of_eq (congrArg _ hutimers)
      · intro e he
        rw [hdone.2.2, hqueue] at he
        exact (mem_queue_routeUpdate.mp he).1

theorem calm_pduErrorRx {packet : RouteTask} {errpdu : AodvPduError}
    (h : pduErrorRx env packet errpdu a = some done) : Calm a done.state := by
  obtain ⟨routes, -, h⟩ := Option.bind_eq_some_iff.mp h
  obtain rfl := Option.some.inj h
  exact .ofEq rfl rfl rfl

theorem calm_pduHelloSend (h : pduHelloSend conf env a = some done) : Calm a done.state := by
  unfold pduHelloSend at h
  split_ifs at h
  · obtain rfl := Option.some.inj h
    exact .ofEq rfl rfl rfl
  · obtain ⟨my, -, h⟩ := Option.bind_eq_some_iff.mp h
    obtain rfl := Option.some.inj h
    exact ⟨rfl, fun _ hty => resend_mem_timerInsert (by decide) hty, fun _ he => he⟩

theorem calm_neighDelete {ip : U32} (h : neighDelete conf env ip a = some done) :
    Calm a done.state := by
  have htimers : ∀ task : RouteTask, task.type = taskResendRreq →
      (task ∈ timerDelete taskNeighbor ip a.timers ↔ task ∈ a.timers) := by
    intro task hty
    rw [resend_mem_timerDelete hty]
    simp [taskNeighbor, taskResendRreq]
  unfold neighDelete at h
  cases hn : Maodv.neighFind ip a.neighs with
  | none =>
      rw [hn] at h
      obtain rfl := Option.some.inj h
      exact .ofEq rfl rfl rfl
  | some c =>
      rw [hn] at h
      dsimp only at h
      generalize (routeFind env ip a.routes).2 = found at h
      cases found with
      | none =>
          obtain rfl := Option.some.inj h
          exact ⟨rfl, htimers, fun _ he => he⟩
      | some c =>
          dsimp only at h
          split_ifs at h
          · obtain ⟨now, -, h⟩ := Option.bind_eq_some_iff.mp h
            split_ifs at h
            · obtain rfl := Option.some.inj h
              exact ⟨rfl, htimers, fun _ he => he⟩
            · obtain rfl := Option.some.inj h
              exact ⟨rfl, htimers, fun _ he => he⟩
          · obtain rfl := Option.some.inj h
            exact ⟨rfl, htimers, fun _ he => he⟩

/-! ## A received RREP -/

def ReplyHeard (env : Env) (packet : RouteTask) (reply : AodvPduReply) (a : State) : Prop :=
  reply.srcIp ≠ reply.dstIp ∧ neighValid env packet.srcIp a.neighs = true

def replyAccepted (env : Env) (packet : RouteTask) (reply : AodvPduReply) (a : State) : Bool :=
  updateAccepts env packet.srcIp (reply.metric + 1) reply.dstSeq a.neighs
    (routeFind env reply.dstIp a.routes).2

theorem checkReply_cases {packet : RouteTask} {reply : AodvPduReply} {a₁ : State} {ok : Bool}
    (h : checkReply conf env packet reply a = some (a₁, ok)) :
    (ok = false ∧ ¬ReplyHeard env packet reply a ∧ Calm a a₁) ∨
      (ok = true ∧ ReplyHeard env packet reply a ∧
        a₁ = { a with timers := timerDelete taskResendRreq reply.dstIp a.timers }) := by
  unfold checkReply at h
  split_ifs at h with hsame hheard
  · obtain ⟨a₂, hhello, h⟩ := Option.bind_eq_some_iff.mp h
    obtain ⟨rfl, rfl⟩ := Prod.mk.inj (Option.some.inj h)
    refine .inl ⟨rfl, ?_, calm_recvHello hhello⟩
    rintro ⟨hne, -⟩
    exact hne (by simpa using hsame)
  · obtain ⟨rfl, rfl⟩ := Prod.mk.inj (Option.some.inj h)
    refine .inl ⟨rfl, ?_, .ofEq rfl rfl rfl⟩
    rintro ⟨-, hv⟩
    simp [hv] at hheard
  · obtain ⟨rfl, rfl⟩ := Prod.mk.inj (Option.some.inj h)
    exact .inr ⟨rfl, ⟨by simpa using hsame, by simpa using hheard⟩, rfl⟩

theorem pduReplyRx_passed {packet : RouteTask} {reply : AodvPduReply} {b : State}
    (hcheck : checkReply conf env packet reply a = some (b, true))
    (h : pduReplyRx conf env packet reply a = some done) :
    done.state.tasks = b.tasks ∧ done.state.timers = b.timers ∧
      done.state.queue = (routeUpdate conf env reply.dstIp packet.srcIp (reply.metric + 1)
        reply.dstSeq packet.dev b).1.queue := by
  obtain ⟨hutasks, hutimers, -⟩ := routeUpdate_frame conf env reply.dstIp packet.srcIp
    (reply.metric + 1) reply.dstSeq packet.dev b
  rw [← hutasks, ← hutimers]
  simp only [pduReplyRx, hcheck, Option.bind_eq_bind, Option.bind_some, Bool.not_true,
    Bool.false_eq_true, if_false] at h
  generalize routeUpdate conf env reply.dstIp packet.srcIp (reply.metric + 1) reply.dstSeq
    packet.dev b = res at h
  generalize (routeFind env reply.srcIp res.1.routes).2 = found at h
  cases found with
  | none =>
      obtain rfl := Option.some.inj h
      exact ⟨rfl, rfl, rfl⟩
  | some c =>
      dsimp only at h
      split_ifs at h
      · obtain rfl := Option.some.inj h
        exact ⟨rfl, rfl, rfl⟩
      · obtain rfl := Option.some.inj h
        exact ⟨rfl, rfl, rfl⟩

/-- A RREP that is not heard is calm. One that is ends the discovery for its
destination, and releases the packets only if the route is accepted. -/
theorem pduReplyRx_cases {packet : RouteTask} {reply : AodvPduReply}
    (h : pduReplyRx conf env packet reply a = some done) :
    (¬ReplyHeard env packet reply a ∧ Calm a done.state) ∨
      (ReplyHeard env packet reply a ∧ done.state.tasks = a.tasks ∧
        (∀ task, task.type = taskResendRreq →
          (task ∈ done.state.timers ↔ task ∈ a.timers ∧ task.id ≠ reply.dstIp)) ∧
        ∀ e, e ∈ done.state.queue.list ↔ e ∈ a.queue.list ∧
          (replyAccepted env packet reply a = true → e.daddr ≠ reply.dstIp)) := by
  obtain ⟨⟨a₁, ok⟩, hcheck, hrest⟩ := Option.bind_eq_some_iff.mp h
  obtain ⟨rfl, hno, hcalm⟩ | ⟨rfl, hheard, hb⟩ := checkReply_cases hcheck
  · obtain rfl := Option.some.inj hrest
    exact .inl ⟨hno, hcalm⟩
  · obtain ⟨htasks, htimers, hqueue⟩ := pduReplyRx_passed hcheck h
    refine .inr ⟨hheard, by rw [htasks, hb], ?_, ?_⟩
    · intro task hty
      rw [htimers, hb, resend_mem_timerDelete hty]
      simp
    · intro e
      rw [hqueue, mem_queue_routeUpdate, hb]
      rfl

/-! ## Requests -/

/-- A request that is being issued reaches its timer: the source has a route, the
flood record is taken and the timer is allocated. -/
def issues (env : Env) (srcIp destIp : U32) (a : State) : Bool :=
  match (routeFind env srcIp (routeFind env destIp a.routes).1).2 with
  | none => false
  | some (_, route) =>
      decide (0 ≤ (floodInsert env srcIp destIp (route.rreqId + 1)
        (env.now + pathDiscoveryTime) a.floods).2) && env.mem .timer

/-- Queue and tasks stand; the discovery for `destIp` is now among the timers if
`b` holds, and the others are where they were. -/
structure Issued (destIp : U32) (b : Bool) (a a' : State) : Prop where
  tasks : a'.tasks = a.tasks
  queue : a'.queue = a.queue
  timers : ∀ task, task.type = taskResendRreq → task ∈ a'.timers →
    task ∈ a.timers ∨ (task.id = destIp ∧ task.dstIp = destIp)
  pending : ∀ d, (∃ task ∈ a'.timers, ResendFor d task) ↔
    (∃ task ∈ a.timers, ResendFor d task) ∨ (b = true ∧ d = destIp)

theorem Issued.ofEq {destIp : U32} (htasks : a'.tasks = a.tasks) (htimers : a'.timers = a.timers)
    (hqueue : a'.queue = a.queue) : Issued destIp false a a' :=
  ⟨htasks, hqueue, fun _ _ ht => .inl (htimers ▸ ht), fun d => by simp [htimers]⟩

theorem issued_issueRequest (conf : EngineConf) (env : Env) (srcIp destIp : U32) (d : Bool)
    (retries : U8) (a : State) :
    Issued destIp (issues env srcIp destIp a) a
      (issueRequest conf env srcIp destIp d retries a).state := by
  unfold issueRequest issues
  dsimp only
  generalize routeFind env srcIp (routeFind env destIp a.routes).1 = res
  obtain ⟨t, found⟩ := res
  cases found with
  | none => exact .ofEq rfl rfl rfl
  | some c =>
      obtain ⟨p, route⟩ := c
      dsimp only
      generalize floodInsert env srcIp destIp (route.rreqId + 1) (env.now + pathDiscoveryTime)
        a.floods = flood
      by_cases hflood : flood.2 < 0
      · rw [if_pos hflood, decide_eq_false (by omega), Bool.false_and]
        exact .ofEq rfl rfl rfl
      · rw [if_neg hflood, decide_eq_true (by omega), Bool.true_and]
        by_cases hmem : env.mem .timer = true
        · rw [hmem]
          unfold timerInsertRequest
          simp only [hmem, if_true]
          refine ⟨rfl, rfl, ?_, ?_⟩
          · intro task _ ht
            rcases mem_timerEnqueue_iff.mp ht with ht | ⟨rfl, -⟩
            · exact .inl ht
            · exact .inr ⟨rfl, rfl⟩
          · intro x
            constructor
            · rintro ⟨task, ht, hfor⟩
              rcases mem_timerEnqueue_iff.mp ht with ht | ⟨rfl, -⟩
              · exact .inl ⟨task, ht, hfor⟩
              · exact .inr ⟨rfl, hfor.2.symm⟩
            · rintro (⟨task, ht, hfor⟩ | ⟨-, rfl⟩)
              · exact ⟨task, mem_timerEnqueue_iff.mpr (.inl ht), hfor⟩
              · -- an entry for this address that is there already is as good
                by_cases hold : ∃ t ∈ a.timers, ResendFor x t
                · obtain ⟨task, ht, hfor⟩ := hold
                  exact ⟨task, mem_timerEnqueue_iff.mpr (.inl ht), hfor⟩
                · refine ⟨_, mem_timerEnqueue_iff.mpr (.inr ⟨rfl, ?_⟩), rfl, rfl⟩
                  intro t ht heq
                  exact hold ⟨t, ht, heq⟩
        · replace hmem : env.mem .timer = false := by simpa using hmem
          rw [hmem]
          unfold timerInsertRequest
          simp only [hmem, Bool.false_eq_true, if_false]
          exact .ofEq rfl rfl rfl

def creates (conf : EngineConf) (env : Env) (destIp : U32) (a : State) : Bool :=
  env.mem .pdu && issues env conf.myIp destIp a

theorem issued_pduRequestCreate (conf : EngineConf) (env : Env) (destIp : U32) (a : State) :
    Issued destIp (creates conf env destIp a) a (pduRequestCreate conf env destIp a).state := by
  unfold pduRequestCreate creates
  split_ifs with hfind hmem
  · refine ⟨rfl, rfl, fun _ _ ht => .inl ht, fun d => ?_⟩
    obtain ⟨task, htask⟩ := Option.isSome_iff_exists.mp hfind
    have hin : task ∈ a.timers := List.mem_of_find?_eq_some htask
    have hfor : ResendFor destIp task := by
      have heq := List.find?_some htask
      simp only [Bool.and_eq_true, beq_iff_eq] at heq
      exact ⟨heq.2, heq.1⟩
    constructor
    · exact .inl
    · rintro (hold | ⟨-, rfl⟩)
      · exact hold
      · exact ⟨task, hin, hfor⟩
  · replace hmem : env.mem .pdu = false := by simpa using hmem
    rw [hmem, Bool.false_and]
    exact .ofEq rfl rfl rfl
  · replace hmem : env.mem .pdu = true := by simpa using hmem
    rw [hmem, Bool.true_and]
    exact issued_issueRequest _ _ _ _ _ _ _

def renews (env : Env) (task : RouteTask) (a : State) : Bool :=
  env.mem .pdu && issues env task.srcIp task.dstIp a

theorem issued_resend (conf : EngineConf) (env : Env) (task : RouteTask) (a : State)
    (hretries : 0 < task.retries) :
    Issued task.dstIp (renews env task a) a (pduRequestResendTtl conf env task a).state := by
  have hnot : ¬task.retries ≤ 0 := BitVec.not_le.mpr hretries
  unfold pduRequestResendTtl renews
  rw [if_neg hnot]
  split_ifs with hmem
  · replace hmem : env.mem .pdu = false := by simpa using hmem
    rw [hmem, Bool.false_and]
    exact .ofEq rfl rfl rfl
  · replace hmem : env.mem .pdu = true := by simpa using hmem
    rw [hmem, Bool.true_and]
    exact issued_issueRequest _ _ _ _ _ _ _

/-! ## One turn of the kernel thread -/

inductive Outcome (env : Env) (task : RouteTask) (a a' : State) : Prop
  | calm (h : Calm a a') (hty : task.type ≠ taskResendRreq)
      (hno : ∀ reply, task.type = taskRrep → task.data = .reply reply →
        ¬ReplyHeard env task reply a)
  | replied (reply : AodvPduReply) (hty : task.type = taskRrep) (hdata : task.data = .reply reply)
      (hheard : ReplyHeard env task reply a) (htasks : a'.tasks = a.tasks)
      (htimers : ∀ t, t.type = taskResendRreq →
        (t ∈ a'.timers ↔ t ∈ a.timers ∧ t.id ≠ reply.dstIp))
      (hqueue : ∀ e, e ∈ a'.queue.list ↔ e ∈ a.queue.list ∧
        (replyAccepted env task reply a = true → e.daddr ≠ reply.dstIp))
  | dropped (hty : task.type = taskResendRreq) (hretries : ¬0 < task.retries)
      (htasks : a'.tasks = a.tasks) (htimers : a'.timers = a.timers)
      (hqueue : ∀ e, e ∈ a'.queue.list ↔ e ∈ a.queue.list ∧ e.daddr ≠ task.dstIp)
  | renewed (hty : task.type = taskResendRreq) (hretries : 0 < task.retries)
      (h : Issued task.dstIp (renews env task a) a a')

theorem outcome_handleTask (h : handleTask conf env task a = some done) :
    Outcome env task a done.state := by
  unfold handleTask at h
  by_cases h₁ : task.type = taskRreq
  · rw [if_pos h₁] at h
    split at h
    · refine .calm (calm_pduRequestRx h) (by rw [h₁]; decide) ?_
      intro reply hty
      exact absurd (h₁.symm.trans hty) (by decide)
    · cases h
  by_cases h₂ : task.type = taskRrep
  · rw [if_neg h₁, if_pos h₂] at h
    split at h
    · rename_i reply hdata
      obtain ⟨hno, hcalm⟩ | ⟨hheard, htasks, htimers, hqueue⟩ := pduReplyRx_cases h
      · refine .calm hcalm (by rw [h₂]; decide) ?_
        intro reply' _ hreply'
        obtain rfl : reply = reply' := by simpa [hdata] using hreply'
        exact hno
      · exact .replied reply h₂ hdata hheard htasks htimers hqueue
    · cases h
  rw [if_neg h₁, if_neg h₂] at h
  by_cases h₃ : task.type = taskRrepAck
  · rw [if_pos h₃] at h
    obtain rfl := Option.some.inj h
    exact .calm (.ofEq rfl rfl rfl) (by rw [h₃]; decide) fun _ hty => absurd hty h₂
  by_cases h₄ : task.type = taskRerr
  · rw [if_neg h₃, if_pos h₄] at h
    split at h
    · exact .calm (calm_pduErrorRx h) (by rw [h₄]; decide) fun _ hty => absurd hty h₂
    · cases h
  rw [if_neg h₃, if_neg h₄] at h
  by_cases h₅ : task.type = taskCleanup
  · rw [if_pos h₅] at h
    obtain rfl := Option.some.inj h
    refine .calm ⟨rfl, ?_, fun _ he => he⟩ (by rw [h₅]; decide) fun _ hty => absurd hty h₂
    exact fun _ hty => resend_mem_timerInsert (by decide) hty
  by_cases h₆ : task.type = taskHello
  · rw [if_neg h₅, if_pos h₆] at h
    exact .calm (calm_pduHelloSend h) (by rw [h₆]; decide) fun _ hty => absurd hty h₂
  rw [if_neg h₅, if_neg h₆] at h
  by_cases h₇ : task.type = taskNeighbor
  · rw [if_pos h₇] at h
    exact .calm (calm_neighDelete h) (by rw [h₇]; decide) fun _ hty => absurd hty h₂
  by_cases h₈ : task.type = taskRouteCleanup
  · rw [if_neg h₇, if_pos h₈] at h
    obtain rfl := Option.some.inj h
    exact .calm (.ofEq rfl rfl rfl) (by rw [h₈]; decide) fun _ hty => absurd hty h₂
  rw [if_neg h₇, if_neg h₈] at h
  by_cases h₉ : task.type = taskResendRreq
  · rw [if_pos h₉] at h
    obtain rfl := Option.some.inj h
    by_cases hretries : 0 < task.retries
    · exact .renewed h₉ hretries (issued_resend conf env task a hretries)
    · have hzero : task.retries ≤ 0 := BitVec.not_lt.mp hretries
      unfold pduRequestResendTtl
      rw [if_pos hzero]
      exact .dropped h₉ hretries rfl rfl fun e => mem_reinject .drop
  · rw [if_neg h₉] at h
    obtain rfl := Option.some.inj h
    exact .calm (.ofEq rfl rfl rfl) h₉ fun _ hty => absurd hty h₂

/-- The condition on a task: a heard RREP is accepted, or another entry for its
destination is in the task queue, or nothing waits for it; a repeated request gets
its timer, or there is another entry, or nothing waits. -/
def TaskCovered (env : Env) (task : RouteTask) (a : State) : Prop :=
  (∀ reply, task.type = taskRrep → task.data = .reply reply → ReplyHeard env task reply a →
    replyAccepted env task reply a = true ∨ (∃ t ∈ a.tasks.tail, ResendFor reply.dstIp t) ∨
      ∀ e ∈ a.queue.list, e.daddr ≠ reply.dstIp) ∧
  (task.type = taskResendRreq → 0 < task.retries →
    renews env task a = true ∨
      (∃ t, (t ∈ a.timers ∨ t ∈ a.tasks.tail) ∧ ResendFor task.dstIp t) ∨
      ∀ e ∈ a.queue.list, e.daddr ≠ task.dstIp)

def dequeued (a : State) : State := { a with tasks := a.tasks.tail }

theorem pending_dequeued {d : U32} (a : State) :
    Pending d (dequeued a) ↔
      (∃ t ∈ a.timers, ResendFor d t) ∨ ∃ t ∈ a.tasks.tail, ResendFor d t := by
  simp only [Pending, dequeued]
  constructor
  · rintro ⟨t, ht | ht, hfor⟩
    · exact .inl ⟨t, ht, hfor⟩
    · exact .inr ⟨t, ht, hfor⟩
  · rintro (⟨t, ht, hfor⟩ | ⟨t, ht, hfor⟩)
    · exact ⟨t, .inl ht, hfor⟩
    · exact ⟨t, .inr ht, hfor⟩

theorem Pending.of_head {d : U32} {rest : List RouteTask} (h : Pending d a)
    (htasks : a.tasks = task :: rest) (hhead : ¬ResendFor d task) :
    (∃ t ∈ a.timers, ResendFor d t) ∨ ∃ t ∈ a.tasks.tail, ResendFor d t := by
  obtain ⟨t, ht | ht, hfor⟩ := h
  · exact .inl ⟨t, ht, hfor⟩
  · rw [htasks] at ht
    rcases List.mem_cons.mp ht with rfl | ht
    · exact absurd hfor hhead
    · exact .inr ⟨t, by rwa [htasks], hfor⟩

theorem noStranded_replied_iff {rest : List RouteTask} {d : U32} {accepted : Bool}
    (hok : NoStranded a) (htasks : a.tasks = task :: rest) (hty : task.type ≠ taskResendRreq)
    (htasks' : a'.tasks = a.tasks)
    (htimers : ∀ t, t.type = taskResendRreq → (t ∈ a'.timers ↔ t ∈ a.timers ∧ t.id ≠ d))
    (hqueue : ∀ e, e ∈ a'.queue.list ↔
      e ∈ a.queue.list ∧ (accepted = true → e.daddr ≠ d)) :
    NoStranded (dequeued a') ↔ accepted = true ∨ (∃ t ∈ a.tasks.tail, ResendFor d t) ∨
      ∀ e ∈ a.queue.list, e.daddr ≠ d := by
  constructor
  · intro hok'
    by_cases hacc : accepted = true
    · exact .inl hacc
    · right
      by_contra hno
      push Not at hno
      obtain ⟨hnone, e, he, hd⟩ := hno
      have hp := hok' e ((hqueue e).mpr ⟨he, fun h => absurd h hacc⟩)
      rw [pending_dequeued, hd, htasks'] at hp
      rcases hp with ⟨t, ht, hfor⟩ | ⟨t, ht, hfor⟩
      · exact ((htimers t hfor.1).mp ht).2 hfor.2
      · exact hnone t ht hfor
  · intro hcov e he
    obtain ⟨he, hacc⟩ := (hqueue e).mp he
    rw [pending_dequeued, htasks']
    by_cases hd : e.daddr = d
    · rcases hcov with h | ⟨t, ht, hfor⟩ | hno
      · exact absurd hd (hacc h)
      · exact .inr ⟨t, ht, hd ▸ hfor⟩
      · exact absurd hd (hno e he)
    · rcases (hok e he).of_head htasks (fun hfor => hty hfor.1) with ⟨t, ht, hfor⟩ | ht
      · exact .inl ⟨t, (htimers t hfor.1).mpr ⟨ht, by rwa [hfor.2]⟩, hfor⟩
      · exact .inr ht

theorem noStranded_renewed_iff {rest : List RouteTask} {d : U32} {renewed : Bool}
    (hok : NoStranded a) (htasks : a.tasks = task :: rest)
    (hhead : ∀ d', ResendFor d' task → d' = d) (h : Issued d renewed a a') :
    NoStranded (dequeued a') ↔ renewed = true ∨
      (∃ t, (t ∈ a.timers ∨ t ∈ a.tasks.tail) ∧ ResendFor d t) ∨
      ∀ e ∈ a.queue.list, e.daddr ≠ d := by
  constructor
  · intro hok'
    by_cases hwait : ∃ e ∈ a.queue.list, e.daddr = d
    · obtain ⟨e, he, hd⟩ := hwait
      have hp := hok' e (by simpa [dequeued, h.queue] using he)
      rw [pending_dequeued, hd, h.tasks, h.pending] at hp
      rcases hp with (⟨t, ht, hfor⟩ | ⟨hnew, -⟩) | ⟨t, ht, hfor⟩
      · exact .inr (.inl ⟨t, .inl ht, hfor⟩)
      · exact .inl hnew
      · exact .inr (.inl ⟨t, .inr ht, hfor⟩)
    · right
      right
      intro e he hd
      exact hwait ⟨e, he, hd⟩
  · intro hcov e he
    replace he : e ∈ a.queue.list := by simpa [dequeued, h.queue] using he
    rw [pending_dequeued, h.tasks, h.pending]
    by_cases hd : e.daddr = d
    · rw [hd]
      rcases hcov with hnew | ⟨t, ht | ht, hfor⟩ | hno
      · exact .inl (.inr ⟨hnew, rfl⟩)
      · exact .inl (.inl ⟨t, ht, hfor⟩)
      · exact .inr ⟨t, ht, hfor⟩
      · exact absurd hd (hno e he)
    · rcases (hok e he).of_head htasks (fun hfor => hd (hhead _ hfor)) with ht | ht
      · exact .inl (.inl ht)
      · exact .inr ht

theorem Outcome.noStranded_iff {rest : List RouteTask} (h : Outcome env task a a')
    (hok : NoStranded a) (hfiled : Filed a) (htasks : a.tasks = task :: rest) :
    NoStranded (dequeued a') ↔ TaskCovered env task a := by
  have hreply : task.type = taskRrep → task.type ≠ taskResendRreq :=
    fun hty heq => absurd (hty.symm.trans heq) (by decide)
  -- the head stands for the destination it names only
  have hhead (hty : task.type = taskResendRreq) (d : U32) (hfor : ResendFor d task) :
      d = task.dstIp :=
    hfor.2.symm.trans (hfiled task (.inr (by simp [htasks])) hty).symm
  cases h with
  | calm h hty hno =>
      refine iff_of_true ?_ ⟨?_, fun heq => absurd heq hty⟩
      · intro e he
        rw [pending_dequeued, h.tasks]
        rcases (hok e (h.queue e he)).of_head htasks (fun hfor => hty hfor.1) with
          ⟨t, ht, hfor⟩ | ht
        · exact .inl ⟨t, (h.timers t hfor.1).mpr ht, hfor⟩
        · exact .inr ht
      · intro reply hrrep hdata hheard
        exact absurd hheard (hno reply hrrep hdata)
  | replied reply hty hdata hheard htasks' htimers hqueue =>
      rw [noStranded_replied_iff hok htasks (hreply hty) htasks' htimers hqueue]
      constructor
      · refine fun hcov => ⟨fun reply' _ hdata' _ => ?_, fun heq => absurd heq (hreply hty)⟩
        obtain rfl : reply = reply' := by simpa [hdata] using hdata'
        exact hcov
      · exact fun hcov => hcov.1 reply hty hdata hheard
  | dropped hty hretries htasks' htimers hqueue =>
      refine iff_of_true ?_ ⟨fun _ heq => absurd hty (hreply heq), fun _ h => absurd h hretries⟩
      intro e he
      obtain ⟨he, hd⟩ := (hqueue e).mp he
      rw [pending_dequeued, htasks', htimers]
      exact (hok e he).of_head htasks fun hfor => hd (hhead hty _ hfor)
  | renewed hty hretries h =>
      rw [noStranded_renewed_iff hok htasks (hhead hty) h]
      constructor
      · exact fun hcov => ⟨fun _ heq => absurd hty (hreply heq), fun _ _ => hcov⟩
      · exact fun hcov => hcov.2 hty hretries

theorem Outcome.filed (h : Outcome env task a a') (hfiled : Filed a) : Filed (dequeued a') := by
  have hmem : ∀ (tasks : List RouteTask) (t : RouteTask), tasks = a.tasks → t ∈ tasks.tail →
      t ∈ a.tasks := fun tasks t heq ht => heq ▸ List.mem_of_mem_tail ht
  intro t ht hty
  cases h with
  | calm h _ _ =>
      rcases ht with ht | ht
      · exact hfiled t (.inl ((h.timers t hty).mp ht)) hty
      · exact hfiled t (.inr (hmem _ t h.tasks ht)) hty
  | replied reply _ _ _ htasks' htimers _ =>
      rcases ht with ht | ht
      · exact hfiled t (.inl ((htimers t hty).mp ht).1) hty
      · exact hfiled t (.inr (hmem _ t htasks' ht)) hty
  | dropped _ _ htasks' htimers _ =>
      rcases ht with ht | ht
      · exact hfiled t (.inl (htimers ▸ ht)) hty
      · exact hfiled t (.inr (hmem _ t htasks' ht)) hty
  | renewed _ _ h =>
      rcases ht with ht | ht
      · rcases h.timers t hty ht with ht | ⟨hid, hdst⟩
        · exact hfiled t (.inl ht) hty
        · rw [hid, hdst]
      · exact hfiled t (.inr (hmem _ t h.tasks ht)) hty

/-! ## Runs -/

theorem packetTx_cases (conf : EngineConf) (env : Env) (daddr : U32) (a : State) :
    (∃ routes, packetTx conf env daddr a = (.accept, ⟨0, { a with routes := routes }, [], []⟩)) ∨
      packetTx conf env daddr a = (.queue, pduRequestCreate conf env daddr
        { a with routes := (routeFind env daddr a.routes).1 }) := by
  unfold packetTx
  split_ifs
  · exact .inl ⟨a.routes, rfl⟩
  · exact .inl ⟨a.routes, rfl⟩
  · generalize routeFind env daddr a.routes = res
    obtain ⟨t, found⟩ := res
    cases found with
    | none => exact .inr rfl
    | some c =>
        obtain ⟨p, route⟩ := c
        by_cases hv : route.routeValid = true
        · left
          by_cases hself : route.selfRoute = true
          · exact ⟨t, by simp [hv, hself]⟩
          · exact ⟨_, by simp only [hv, hself, Bool.not_true, Bool.false_eq_true, if_false]; rfl⟩
        · exact .inr (by simp [hv])

/-- The condition on one event: a packet that joins the queue belongs to a
discovery that is under way or can be started, and the task worked on is covered. -/
def Covered (conf : EngineConf) (env : Env) (a : State) : Event → Prop
  | .output packet room =>
      (packetTx conf env packet.daddr a).1 = .queue → 0 ≤ (ipqEnqueue room packet a.queue).2 →
        Pending packet.daddr a ∨ creates conf env packet.daddr
          { a with routes := (routeFind env packet.daddr a.routes).1 } = true
  | .work => ∀ task ∈ a.tasks.head?, TaskCovered env task a
  | _ => True

theorem Issued.pending_iff {destIp d : U32} {b : Bool} (h : Issued destIp b a a') :
    Pending d a' ↔ Pending d a ∨ (b = true ∧ d = destIp) := by
  have hp := h.pending d
  constructor
  · rintro ⟨t, ht | ht, hfor⟩
    · rcases hp.mp ⟨t, ht, hfor⟩ with ⟨t, ht, hfor⟩ | hnew
      · exact .inl ⟨t, .inl ht, hfor⟩
      · exact .inr hnew
    · exact .inl ⟨t, .inr (h.tasks ▸ ht), hfor⟩
  · rintro (⟨t, ht | ht, hfor⟩ | hnew)
    · obtain ⟨t, ht, hfor⟩ := hp.mpr (.inl ⟨t, ht, hfor⟩)
      exact ⟨t, .inl ht, hfor⟩
    · exact ⟨t, .inr (h.tasks ▸ ht), hfor⟩
    · obtain ⟨t, ht, hfor⟩ := hp.mpr (.inr hnew)
      exact ⟨t, .inl ht, hfor⟩

section Events

variable (hok : NoStranded a) (hfiled : Filed a)

include hok hfiled

theorem noStranded_output_iff {packet : IpqElement} {room : Bool}
    (h : step conf env a (.output packet room) = some done) :
    (NoStranded done.state ↔ Covered conf env a (.output packet room)) ∧ Filed done.state := by
  rcases packetTx_cases conf env packet.daddr a with ⟨routes, htx⟩ | htx
  · simp only [step, htx] at h
    obtain rfl := Option.some.inj h
    exact ⟨iff_of_true hok (by simp [Covered, htx]), hfiled⟩
  · simp only [step, htx] at h
    obtain rfl := Option.some.inj h
    have hissued := issued_pduRequestCreate conf env packet.daddr
      { a with routes := (routeFind env packet.daddr a.routes).1 }
    generalize (pduRequestCreate conf env packet.daddr
      { a with routes := (routeFind env packet.daddr a.routes).1 }).state = b at hissued
    have hpend : ∀ d, Pending d { b with queue := (ipqEnqueue room packet b.queue).1 } ↔
        Pending d a ∨ (creates conf env packet.daddr
          { a with routes := (routeFind env packet.daddr a.routes).1 } = true ∧
            d = packet.daddr) := fun d => hissued.pending_iff
    have hqueue : b.queue = a.queue := hissued.queue
    refine ⟨?_, ?_⟩
    · simp only [Covered, htx, forall_const]
      constructor
      · intro hok' hroom
        have hp := hok' packet (mem_ipqEnqueue.mpr (.inr ⟨rfl, by rwa [hqueue]⟩))
        rcases (hpend packet.daddr).mp hp with hp | ⟨hnew, -⟩
        · exact .inl hp
        · exact .inr hnew
      · intro hcov e he
        rw [hpend]
        rcases mem_ipqEnqueue.mp he with he | ⟨rfl, hroom⟩
        · exact .inl (hok e (hqueue ▸ he))
        · rcases hcov (by rwa [← hqueue]) with hp | hnew
          · exact .inl hp
          · exact .inr ⟨hnew, rfl⟩
    · intro t ht hty
      rcases ht with ht | ht
      · rcases hissued.timers t hty ht with ht | ⟨hid, hdst⟩
        · exact hfiled t (.inl ht) hty
        · rw [hid, hdst]
      · exact hfiled t (.inr (hissued.tasks ▸ ht)) hty

theorem noStranded_of_same (hqueue : a'.queue = a.queue)
    (hmem : ∀ t, t.type = taskResendRreq →
      (t ∈ a'.timers ∨ t ∈ a'.tasks ↔ t ∈ a.timers ∨ t ∈ a.tasks)) :
    NoStranded a' ∧ Filed a' := by
  constructor
  · intro e he
    obtain ⟨t, ht, hfor⟩ := hok e (hqueue ▸ he)
    exact ⟨t, (hmem t hfor.1).mpr ht, hfor⟩
  · intro t ht hty
    exact hfiled t ((hmem t hty).mp ht) hty

theorem noStranded_input (dev : RouteDev) (frame : Frame) :
    NoStranded (packetIn env dev frame a) ∧ Filed (packetIn env dev frame a) := by
  unfold packetIn
  split_ifs
  · refine noStranded_of_same hok hfiled rfl fun t hty => or_congr_right ?_
    simp only [List.mem_append, List.mem_singleton, or_iff_left_iff_imp]
    rintro rfl
    simp only [ipTask] at hty
    cases hp : frame.pdu <;>
      simp [hp, Maodv.pduType, taskResendRreq, taskRreq, taskRrep, taskRerr, taskRrepAck] at hty
  · exact ⟨hok, hfiled⟩

theorem noStranded_signal :
    NoStranded (timerQueueSignal env a) ∧ Filed (timerQueueSignal env a) := by
  refine noStranded_of_same hok hfiled rfl fun t _ => ?_
  simp only [timerQueueSignal, List.mem_append, List.mem_filter, Bool.not_eq_true']
  cases timeBeforeEq t.time env.now <;> simp [or_comm]

theorem noStranded_work_iff (h : step conf env a .work = some done) :
    (NoStranded done.state ↔ Covered conf env a .work) ∧ Filed done.state := by
  simp only [step, kthread] at h
  cases htasks : a.tasks with
  | nil =>
      rw [htasks] at h
      obtain rfl := Option.some.inj h
      exact ⟨iff_of_true hok (by simp [Covered, htasks]), hfiled⟩
  | cons task rest =>
      rw [htasks] at h
      obtain ⟨d, hd, h⟩ := Option.bind_eq_some_iff.mp h
      obtain rfl := Option.some.inj h
      have hout := outcome_handleTask hd
      refine ⟨?_, hout.filed hfiled⟩
      have hiff := hout.noStranded_iff hok hfiled htasks
      simpa [Covered, htasks, dequeued] using hiff

/-- A step from a state without stranded packets leads to another one exactly when
it is covered. -/
theorem noStranded_step_iff {event : Event} (h : step conf env a event = some done) :
    (NoStranded done.state ↔ Covered conf env a event) ∧ Filed done.state := by
  cases event with
  | output packet room => exact noStranded_output_iff hok hfiled h
  | input dev frame =>
      obtain rfl := Option.some.inj h
      obtain ⟨hok', hfiled'⟩ := noStranded_input hok hfiled dev frame
      exact ⟨iff_of_true hok' trivial, hfiled'⟩
  | signal =>
      obtain rfl := Option.some.inj h
      obtain ⟨hok', hfiled'⟩ := noStranded_signal hok hfiled
      exact ⟨iff_of_true hok' trivial, hfiled'⟩
  | work => exact noStranded_work_iff hok hfiled h

end Events

def stepState (conf : EngineConf) (e : Env × Event) (a : State) : Option State :=
  (step conf e.1 a e.2).map Done.state

theorem aodvInit_start (env : Env) (supportGateway : Bool) (localIp localMask : U32)
    (devs : List RouteDev) (maxlen : ℕ) :
    NoStranded (aodvInit env supportGateway localIp localMask devs maxlen).2 ∧
      Filed (aodvInit env supportGateway localIp localMask devs maxlen).2 := by
  have hdevs : ∀ (devs : List RouteDev) (s : EngineConf × State),
      (devs.foldl (fun s dev => insertAodvDev env dev s) s).2.tasks = s.2.tasks ∧
        (devs.foldl (fun s dev => insertAodvDev env dev s) s).2.timers = s.2.timers ∧
        (devs.foldl (fun s dev => insertAodvDev env dev s) s).2.queue = s.2.queue := by
    intro devs
    induction devs with
    | nil => exact fun _ => ⟨rfl, rfl, rfl⟩
    | cons dev devs ih => exact fun s => ih (insertAodvDev env dev s)
  unfold aodvInit
  dsimp only
  generalize hs : List.foldl (fun s dev => insertAodvDev env dev s) _ devs = s
  obtain ⟨htasks, htimers, hqueue⟩ := hs ▸ hdevs devs _
  dsimp only at htasks htimers hqueue
  constructor
  · intro e he
    simp [hqueue] at he
  · rintro t (ht | ht) hty
    · rw [resend_mem_timerInsert (by decide) hty, resend_mem_timerInsert (by decide) hty,
        htimers] at ht
      simp at ht
    · simp [htasks] at ht

/-- From a start of the module: every state the run passes through keeps an entry
for each waiting packet exactly when all its steps are covered. -/
theorem noStranded_iff_coveredRun (start : Env) (supportGateway : Bool) (localIp localMask : U32)
    (devs : List RouteDev) (maxlen : ℕ) (events : List (Env × Event)) :
    (∀ a, Machine.Visits (stepState (aodvInit start supportGateway localIp localMask devs maxlen).1)
        (aodvInit start supportGateway localIp localMask devs maxlen).2 events a →
      NoStranded a) ↔
    Machine.Throughout (stepState (aodvInit start supportGateway localIp localMask devs maxlen).1)
      (fun e a => Covered (aodvInit start supportGateway localIp localMask devs maxlen).1 e.1 a e.2)
      events (aodvInit start supportGateway localIp localMask devs maxlen).2 := by
  obtain ⟨hok, hfiled⟩ := aodvInit_start start supportGateway localIp localMask devs maxlen
  refine Machine.visits_iff (A := Filed) ?_ events hok hfiled
  intro e a a' hok hfiled hstep
  obtain ⟨done, hdone, rfl⟩ := Option.map_eq_some_iff.mp hstep
  exact noStranded_step_iff hok hfiled hdone

/-! ## A RREP that comes too late -/

instance (d : U32) (a : State) : Decidable (Pending d a) :=
  decidable_of_iff (∃ task ∈ a.timers ++ a.tasks, task.type = taskResendRreq ∧ task.id = d) (by
    simp only [Pending, ResendFor, List.mem_append])

instance (a : State) : Decidable (NoStranded a) :=
  inferInstanceAs (Decidable (∀ e ∈ a.queue.list, Pending e.daddr a))

def lanStart : EngineConf × State :=
  aodvInit (.plenty 0) true 0x0a000001 0xffffff00 [Maodv.lanDev 0x0a000001] 1024

def lanHear (now srcIp : U32) (pdu : Pdu) : List (Env × Event) :=
  [(.plenty now, .input (Maodv.lanDev 0x0a000001) ⟨srcIp, 0xffffffff, netDiameter, pdu⟩),
   (.plenty now, .work)]

/-- Node 3 is heard at 100 ms, node 2 at 3900 ms. The route to node 3 has run out
when a packet for it is sent at 4000 ms. -/
def discovery : List (Env × Event) :=
  lanHear 100 0x0a000003 (.reply (Maodv.helloPdu 0x0a000003 1)) ++
    lanHear 3900 0x0a000002 (.reply (Maodv.helloPdu 0x0a000002 1)) ++
    [(.plenty 4000, .output ⟨1, 0x0a000003⟩ true)]

example : (Machine.finish (stepState lanStart.1) discovery lanStart.2).any
    (fun a => decide (a.queue.list ≠ [] ∧ NoStranded a)) = true := by decide +kernel

/-- Node 2 passes on a RREP of node 3 with the number that node 3's HELLO had. The
expired entry is one ahead, so the update is refused, with the timer gone. -/
theorem late_reply_strands : ∃ a, Machine.Visits (stepState lanStart.1) lanStart.2
    (discovery ++ lanHear 4010 0x0a000002 (.reply (Maodv.replyPdu 0x0a000003 1 0x0a000001))) a ∧
    ¬NoStranded a :=
  Machine.exists_visits (by decide +kernel)

end Aodv
end WirelessMesh
