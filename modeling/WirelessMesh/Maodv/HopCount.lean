import WirelessMesh.Lib.Runs
import WirelessMesh.Maodv.LoopFree

/-!
# The hops of a RREQ

A RREQ counts its hops twice: the PDU's metric goes up at every node, the TTL of the
datagram goes down. The two counters live in different layers and are changed by
different functions; their sum stays `NET_DIAMETER` on every datagram of every run,
with any delivery of any datagram.
-/

namespace WirelessMesh
namespace Maodv

open Routes Machine

variable {Node : Type*} {conf : EngineConf} {env : Env}

/-! ## Where a RREQ comes from -/

/-- A RREQ that a node sends is its own, or repeats one with `ttl` hops left. -/
inductive Sends (heard : AodvPduRequest → U8 → Prop) (f : Frame) (request : AodvPduRequest) : Prop
  | issued (hmetric : request.metric = 0) (httl : f.ttl = netDiameter)
  | relayed (r : AodvPduRequest) (ttl : U8) (hheard : heard r ttl) (hleft : 1 < ttl)
      (hmetric : request = { r with metric := r.metric + 1 }) (httl : f.ttl = ttl - 1)

theorem mem_broadcast_ttl {ttl : U8} {pdu : Pdu} {f : Frame} (h : f ∈ conf.broadcast ttl pdu) :
    f.pdu = pdu ∧ f.ttl = ttl := by
  unfold EngineConf.broadcast at h
  split_ifs at h
  · simp at h
  · obtain ⟨dev, _, rfl⟩ := List.mem_map.mp h
    exact ⟨rfl, rfl⟩

theorem issueRequest_sent {srcIp destIp : U32} {d : Bool} {retries : U8} {e : RouteEngine}
    {f : Frame} (h : f ∈ (issueRequest conf env srcIp destIp d retries e).sent)
    {request : AodvPduRequest} (hpdu : f.pdu = .request request) :
    request.metric = 0 ∧ f.ttl = netDiameter := by
  unfold issueRequest at h
  dsimp only at h
  split at h
  · simp at h
  · split_ifs at h
    · simp at h
    · dsimp only at h
      obtain ⟨hf, httl⟩ := mem_broadcast_ttl h
      rw [hf] at hpdu
      injection hpdu with hpdu
      rw [← hpdu]
      exact ⟨rfl, httl⟩

theorem sendRequest_sent {destIp : U32} {e : RouteEngine} {f : Frame}
    (h : f ∈ (sendRequest conf env destIp e).sent) {request : AodvPduRequest}
    (hpdu : f.pdu = .request request) : request.metric = 0 ∧ f.ttl = netDiameter := by
  unfold sendRequest at h
  split_ifs at h
  · simp at h
  · simp at h
  · exact issueRequest_sent h hpdu

theorem resendRequest_sent {packet : RouteTask} {e : RouteEngine} {f : Frame}
    (h : f ∈ (resendRequest conf env packet e).sent) {request : AodvPduRequest}
    (hpdu : f.pdu = .request request) : request.metric = 0 ∧ f.ttl = netDiameter := by
  unfold resendRequest at h
  split_ifs at h
  · simp at h
  · simp at h
  · exact issueRequest_sent h hpdu

def RouteTask.Holds (task : RouteTask) (request : AodvPduRequest) (ttl : U8) : Prop :=
  task.type = taskRreq ∧ task.data = .request request ∧ task.ttl = ttl

theorem rxRequest_sent {task : RouteTask} {r : AodvPduRequest} {e : RouteEngine} {done : Done}
    (h : rxRequest conf env task r e = some done) {f : Frame} (hf : f ∈ done.sent)
    {request : AodvPduRequest} (hpdu : f.pdu = .request request) :
    1 < task.ttl ∧ request = { r with metric := r.metric + 1 } ∧ f.ttl = task.ttl - 1 := by
  rcases rxRequest_cases h with ⟨_, _, _, _, _, hsent⟩ | ⟨t₁, t₂, t₃, t₄, answered, tr⟩
  · simp [hsent] at hf
  · cases answered with
    | true =>
        obtain ⟨src, q, dest, _, _, hf⟩ := tr.replied rfl f hf
        rw [(EngineConf.mem_unicast hf).1] at hpdu
        cases hpdu
    | false =>
        rw [tr.forwarded rfl] at hf
        obtain ⟨hpdu', httl⟩ := mem_broadcast_ttl hf
        rw [hpdu'] at hpdu
        injection hpdu with hpdu
        exact ⟨tr.passes.1, hpdu.symm, httl⟩

theorem handleTask_sends {task : RouteTask} {e : RouteEngine} {done : Done}
    (h : handleTask conf env task e = some done) {f : Frame} (hf : f ∈ done.sent)
    {request : AodvPduRequest} (hpdu : f.pdu = .request request) :
    Sends task.Holds f request := by
  cases handleTask_cases h with
  | request r hty hdata h =>
      obtain ⟨hleft, hmetric, httl⟩ := rxRequest_sent h hf hpdu
      exact .relayed r task.ttl ⟨hty, hdata, rfl⟩ hleft hmetric httl
  | reply reply hty hdata h =>
      rcases rxReply_cases h with ⟨_, d, _, rfl⟩ | ⟨_, _, rfl⟩ | ⟨t₁, t₂, tr⟩
      · simp at hf
      · simp at hf
      · obtain ⟨route, _, hf⟩ := tr.sent f hf
        rw [(EngineConf.mem_unicast hf).1] at hpdu
        cases hpdu
  | error errpdu hty hdata h =>
      obtain ⟨t, rfl, _⟩ := rxError_cases h
      simp at hf
  | cleanup hty h hsent => simp [hsent] at hf
  | hello hty h =>
      rcases sendHello_cases h with rfl | ⟨my, _, _, hsent⟩
      · simp at hf
      · obtain ⟨reply, hf, _⟩ := hsent f hf
        rw [(EngineConf.mem_broadcast hf).1] at hpdu
        cases hpdu
  | neighbor hty h =>
      rcases neighDelete_cases h with rfl | ⟨t, tr⟩
      · simp at hf
      · obtain ⟨errpdu, hf⟩ := tr.sent f hf
        rw [(EngineConf.mem_broadcast hf).1] at hpdu
        cases hpdu
  | routeCleanup hty h hsent => simp [hsent] at hf
  | resend hty h =>
      subst h
      obtain ⟨hmetric, httl⟩ := resendRequest_sent hf hpdu
      exact .issued hmetric httl
  | nothing h hsent => simp [hsent] at hf

/-! ## The queues of a node -/

structure QueueStep (e e' : RouteEngine) : Prop where
  tasks : e'.tasks = e.tasks
  timers : ∀ task ∈ e'.timers, task ∈ e.timers ∨ task.type ≠ taskRreq

theorem QueueStep.of_eq {e e' : RouteEngine} (htasks : e'.tasks = e.tasks)
    (htimers : e'.timers = e.timers) : QueueStep e e' :=
  ⟨htasks, fun _ ht => .inl (htimers ▸ ht)⟩

theorem IssueTrace.queueStep {srcIp destIp : U32} {e : RouteEngine} {done : Done} {t : RouteTable}
    (h : IssueTrace conf env srcIp destIp e done t) : QueueStep e done.engine where
  tasks := h.tasks
  timers := by
    intro task ht
    rcases h.timers task ht with ht | ⟨hty, _⟩
    · exact .inl ht
    · exact .inr (by rw [hty]; decide)

theorem timerInsert_queueStep {type : U32} (htype : type ≠ taskRreq) (ip delay : U32)
    (e : RouteEngine) :
    QueueStep e { e with timers := (timerInsert env type ip delay e.timers).1 } where
  tasks := rfl
  timers := by
    intro task ht
    rcases mem_timerInsert ht with ht | ⟨hty, _⟩
    · exact .inl ht
    · exact .inr (hty ▸ htype)

theorem handleTask_queueStep {task : RouteTask} {e : RouteEngine} {done : Done}
    (h : handleTask conf env task e = some done) : QueueStep e done.engine := by
  cases handleTask_cases h with
  | request r hty hdata h =>
      rcases rxRequest_cases h with ⟨_, _, _, _, heng, _⟩ | ⟨t₁, t₂, t₃, t₄, answered, tr⟩
      · rw [heng]
        exact .of_eq rfl rfl
      · rw [tr.engine]
        exact .of_eq rfl rfl
  | reply reply hty hdata h =>
      rcases rxReply_cases h with ⟨_, d, hd, rfl⟩ | ⟨_, _, rfl⟩ | ⟨t₁, t₂, tr⟩
      · rcases rxHello_cases hd with ⟨_, _, rfl⟩ | ⟨t, dev, tr⟩
        · exact .of_eq rfl rfl
        · refine ⟨tr.tasks, fun task ht => ?_⟩
          rcases tr.timers task ht with ht | hty
          · exact .inl ht
          · exact .inr (by rw [hty]; decide)
      · exact .of_eq rfl rfl
      · rw [tr.engine]
        exact ⟨rfl, fun task ht => .inl (mem_timerDelete ht)⟩
  | error errpdu hty hdata h =>
      obtain ⟨t, rfl, _⟩ := rxError_cases h
      exact .of_eq rfl rfl
  | cleanup hty h hsent =>
      rw [h]
      have htype : taskCleanup ≠ taskRreq := by decide
      have hins : QueueStep e { e with
          timers := (timerInsert env taskCleanup conf.myIp helloInterval e.timers).1 } :=
        timerInsert_queueStep htype conf.myIp helloInterval e
      exact ⟨rfl, hins.timers⟩
  | hello hty h =>
      rcases sendHello_cases h with rfl | ⟨my, _, heng, _⟩
      · exact .of_eq rfl rfl
      · rw [heng]
        exact timerInsert_queueStep (by decide) _ _ e
  | neighbor hty h =>
      rcases neighDelete_cases h with rfl | ⟨t, tr⟩
      · exact .of_eq rfl rfl
      · exact ⟨tr.tasks, fun task ht => .inl (tr.timers task ht)⟩
  | routeCleanup hty h hsent =>
      rw [h]
      exact .of_eq rfl rfl
  | resend hty h =>
      subst h
      rcases resendRequest_cases conf env task e with ⟨heng, _⟩ | ⟨t, tr⟩
      · rw [heng]
        exact .of_eq rfl rfl
      · exact tr.queueStep
  | nothing h hsent =>
      rw [h]
      exact .of_eq rfl rfl

/-! ## The network -/

/-- Any datagram that was ever sent may arrive at any device of any node. -/
def Net.anyStep [DecidableEq Node] (D : Deployment Node) : Act Node → Net Node → Option (Net Node)
  | .receive n mem stale dev i, σ => do
      let (_, f) ← σ.air[i]?
      if (D.conf n).devs.contains dev then
        some (σ.after n ⟨0, ipPacketInput (σ.env mem stale) dev f (σ.engine n), []⟩)
      else none
  | act, σ => σ.step D act

/-- Transmissions of one RREQ, the latest first: a node's own request, repeated hop
by hop. -/
inductive Trail (air : List (Node × Frame)) : List (Node × Frame) → Prop
  | origin {s : Node × Frame} {request : AodvPduRequest} (hs : s ∈ air)
      (hpdu : s.2.pdu = .request request) (hmetric : request.metric = 0)
      (httl : s.2.ttl = netDiameter) : Trail air [s]
  | relay {s s' : Node × Frame} {trail : List (Node × Frame)} {request : AodvPduRequest}
      (h : Trail air (s :: trail)) (hs : s' ∈ air) (hpdu : s.2.pdu = .request request)
      (hpdu' : s'.2.pdu = .request { request with metric := request.metric + 1 })
      (httl : s'.2.ttl = s.2.ttl - 1) : Trail air (s' :: s :: trail)

theorem Trail.mono {air air' trail : List (Node × Frame)} (h : Trail air trail)
    (hle : ∀ s ∈ air, s ∈ air') : Trail air' trail := by
  induction h with
  | origin hs hpdu hmetric httl => exact .origin (hle _ hs) hpdu hmetric httl
  | relay _ hs hpdu hpdu' httl ih => exact .relay ih (hle _ hs) hpdu hpdu' httl

def HopsAgree (request : AodvPduRequest) (ttl : U8) : Prop :=
  request.metric.toNat + ttl.toNat = netDiameter.toNat ∧ 1 ≤ ttl.toNat

theorem hopsAgree_issued {request : AodvPduRequest} (h : request.metric = 0) :
    HopsAgree request netDiameter := by
  rw [HopsAgree, h]
  decide

theorem HopsAgree.hop {request : AodvPduRequest} {ttl : U8} (h : HopsAgree request ttl)
    (hleft : 1 < ttl) : HopsAgree { request with metric := request.metric + 1 } (ttl - 1) ∧
      (request.metric + 1).toNat = request.metric.toNat + 1 := by
  obtain ⟨hsum, _⟩ := h
  have hten : netDiameter.toNat = 10 := rfl
  have hleft' : 1 < ttl.toNat := hleft
  rw [HopsAgree, hten]
  rw [hten] at hsum
  dsimp only
  refine ⟨⟨?_, ?_⟩, ?_⟩ <;> bv_omega

def InAir (air : List (Node × Frame)) (request : AodvPduRequest) (ttl : U8) : Prop :=
  ∃ s ∈ air, s.2.pdu = .request request ∧ s.2.ttl = ttl

/-- The invariant of the network: every RREQ in the air has its counters in order and
a trail back to its origin, and the RREQs that wait in a node were in the air. -/
structure Hops (σ : Net Node) : Prop where
  agree : ∀ s ∈ σ.air, ∀ request, s.2.pdu = .request request → HopsAgree request s.2.ttl
  trail : ∀ s ∈ σ.air, ∀ request, s.2.pdu = .request request →
    ∃ trail, Trail σ.air (s :: trail) ∧ trail.length = request.metric.toNat
  timers : ∀ n, ∀ task ∈ (σ.engine n).timers, task.type ≠ taskRreq
  tasks : ∀ n, ∀ task ∈ (σ.engine n).tasks, ∀ request, task.Holds request task.ttl →
    InAir σ.air request task.ttl

theorem hops_start (D : Deployment Node) : Hops D.start where
  agree := by simp [Deployment.start]
  trail := by simp [Deployment.start]
  timers := by
    intro n task ht
    rcases (bootOk_boot ..).timers task ht with hty | hty <;>
      · rw [hty]
        decide
  tasks := by
    intro n task ht
    have hnil : (D.start.engine n).tasks = [] := (bootOk_boot ..).tasks
    simp [hnil] at ht

section Steps

variable {D : Deployment Node} {σ σ' : Net Node} {n : Node} {done : Done}

theorem Hops.sent (h : Hops σ) {f : Frame} {request : AodvPduRequest}
    (hsend : Sends (InAir σ.air) f request) (hpdu : f.pdu = .request request)
    {air : List (Node × Frame)} (hle : ∀ s ∈ σ.air, s ∈ air) (hf : (n, f) ∈ air) :
    HopsAgree request f.ttl ∧
      ∃ trail, Trail air ((n, f) :: trail) ∧ trail.length = request.metric.toNat := by
  cases hsend with
  | issued hmetric httl =>
      rw [httl]
      exact ⟨hopsAgree_issued hmetric, [], .origin hf hpdu hmetric httl, by rw [hmetric]; rfl⟩
  | relayed r ttl hheard hleft hmetric httl =>
      obtain ⟨s, hs, hspdu, rfl⟩ := hheard
      obtain ⟨hagree, hsucc⟩ := (h.agree s hs r hspdu).hop hleft
      obtain ⟨trail, htrail, hlen⟩ := h.trail s hs r hspdu
      subst hmetric
      rw [httl]
      exact ⟨hagree, s :: trail, .relay (htrail.mono hle) hf hspdu hpdu httl,
        by rw [List.length_cons, hlen, hsucc]⟩

theorem Hops.trail_length (h : Hops σ) {s : Node × Frame} {trail : List (Node × Frame)}
    (htrail : Trail σ.air (s :: trail)) :
    ∃ request, s.2.pdu = .request request ∧ trail.length = request.metric.toNat ∧ s ∈ σ.air := by
  generalize hl : s :: trail = l at htrail
  induction htrail generalizing s trail with
  | origin hs hpdu hmetric _ =>
      obtain ⟨rfl, rfl⟩ := List.cons.inj hl
      exact ⟨_, hpdu, by rw [hmetric]; rfl, hs⟩
  | relay htrail hs hpdu hpdu' httl ih =>
      obtain ⟨rfl, rfl⟩ := List.cons.inj hl
      obtain ⟨request, hreq, hlen, hmem⟩ := ih rfl
      have heq := hreq.symm.trans hpdu
      injection heq with heq
      subst heq
      refine ⟨_, hpdu', ?_, hs⟩
      have hbefore := h.agree _ hmem _ hreq
      have hafter := h.agree _ hs _ hpdu'
      have hten : netDiameter.toNat = 10 := rfl
      rw [HopsAgree, hten] at hbefore hafter
      rw [List.length_cons, hlen]
      dsimp only at hafter ⊢
      bv_omega

variable [DecidableEq Node]

theorem Hops.after (h : Hops σ)
    (hsent : ∀ f ∈ done.sent, ∀ request, f.pdu = .request request →
      Sends (InAir σ.air) f request)
    (htimers : ∀ task ∈ done.engine.timers, task.type ≠ taskRreq)
    (htasks : ∀ task ∈ done.engine.tasks, ∀ request, task.Holds request task.ttl →
      InAir σ.air request task.ttl) : Hops (σ.after n done) := by
  have hle : ∀ s ∈ σ.air, s ∈ (σ.after n done).air := fun s hs => List.mem_append_left _ hs
  have hinto : ∀ request ttl, InAir σ.air request ttl → InAir (σ.after n done).air request ttl :=
    fun request ttl ⟨s, hs, hrest⟩ => ⟨s, hle s hs, hrest⟩
  have hnew : ∀ s ∈ (σ.after n done).air, s ∈ σ.air ∨ ∃ f ∈ done.sent, s = (n, f) := by
    intro s hs
    rcases List.mem_append.mp hs with hs | hs
    · exact .inl hs
    · obtain ⟨f, hf, rfl⟩ := List.mem_map.mp hs
      exact .inr ⟨f, hf, rfl⟩
  constructor
  · intro s hs request hpdu
    rcases hnew s hs with hold | ⟨f, hf, rfl⟩
    · exact h.agree s hold request hpdu
    · exact (h.sent (hsent f hf request hpdu) hpdu hle hs).1
  · intro s hs request hpdu
    rcases hnew s hs with hold | ⟨f, hf, rfl⟩
    · obtain ⟨trail, htrail, hlen⟩ := h.trail s hold request hpdu
      exact ⟨trail, htrail.mono hle, hlen⟩
    · exact (h.sent (hsent f hf request hpdu) hpdu hle hs).2
  · intro m task ht
    simp only [Net.after] at ht
    split_ifs at ht
    · exact htimers task ht
    · exact h.timers m task ht
  · intro m task ht request hholds
    simp only [Net.after] at ht
    split_ifs at ht
    · exact hinto _ _ (htasks task ht request hholds)
    · exact hinto _ _ (h.tasks m task ht request hholds)

theorem Hops.queue (h : Hops σ) (hq : QueueStep (σ.engine n) done.engine)
    (hsent : ∀ f ∈ done.sent, ∀ request, f.pdu = .request request →
      Sends (InAir σ.air) f request) : Hops (σ.after n done) := by
  apply h.after hsent
  · intro task ht
    rcases hq.timers task ht with ht | hty
    · exact h.timers n task ht
    · exact hty
  · intro task ht
    rw [hq.tasks] at ht
    exact h.tasks n task ht

theorem Hops.output (h : Hops σ) (env : Env) (daddr : U32) :
    Hops (σ.after n (ipPacketOutput (D.conf n) env daddr (σ.engine n)).2) := by
  obtain ⟨t, _, hcases⟩ := ipPacketOutput_cases (D.conf n) env daddr (σ.engine n)
  rcases hcases with ⟨p, hd⟩ | hd | ⟨_, hd⟩
  · rw [hd]
    exact h.queue (.of_eq rfl rfl) (by simp)
  · rw [hd]
    exact h.queue (.of_eq rfl rfl) (by simp)
  · rw [hd]
    apply h.queue
    · rcases sendRequest_cases (D.conf n) env daddr { σ.engine n with routes := t } with
        ⟨heng, _⟩ | ⟨t', tr⟩
      · rw [heng]
        exact .of_eq rfl rfl
      · exact ⟨tr.queueStep.tasks, tr.queueStep.timers⟩
    · intro f hf request hpdu
      obtain ⟨hmetric, httl⟩ := sendRequest_sent hf hpdu
      exact .issued hmetric httl

theorem Hops.input (h : Hops σ) (env : Env) (dev : RouteDev) {s : Node × Frame}
    (hs : s ∈ σ.air) : Hops (σ.after n ⟨0, ipPacketInput env dev s.2 (σ.engine n), []⟩) := by
  unfold ipPacketInput
  split_ifs
  · apply h.after (by simp) (h.timers n)
    intro task ht request hholds
    rcases List.mem_append.mp ht with ht | ht
    · exact h.tasks n task ht request hholds
    · obtain rfl := List.mem_singleton.mp ht
      exact ⟨s, hs, hholds.2.1, rfl⟩
  · exact h.queue (.of_eq rfl rfl) (by simp)

theorem Hops.signal (h : Hops σ) (env : Env) :
    Hops (σ.after n ⟨0, timerQueueSignal env (σ.engine n), []⟩) := by
  apply h.after (by simp)
  · intro task ht
    exact h.timers n task (List.mem_of_mem_filter ht)
  · intro task ht request hholds
    rcases List.mem_append.mp ht with ht | ht
    · exact h.tasks n task ht request hholds
    · exact absurd hholds.1 (h.timers n task (List.mem_of_mem_filter ht))

theorem Hops.work (h : Hops σ) {env : Env}
    (hdone : kthread (D.conf n) env (σ.engine n) = some done) :
    Hops (σ.after n done) := by
  unfold kthread at hdone
  cases htasks : (σ.engine n).tasks with
  | nil =>
      obtain rfl := by simpa [htasks] using hdone
      exact h.queue (.of_eq rfl rfl) (by simp)
  | cons task rest =>
      simp only [htasks] at hdone
      obtain ⟨d, hd, hdone⟩ := Option.bind_eq_some_iff.mp hdone
      obtain rfl := Option.some.inj hdone
      have hq := handleTask_queueStep hd
      apply h.after
      · intro f hf request hpdu
        cases handleTask_sends hd hf hpdu with
        | issued hmetric httl => exact .issued hmetric httl
        | relayed r ttl hheard hleft hmetric httl =>
            obtain ⟨hty, hdata, rfl⟩ := hheard
            have hair := h.tasks n task (by simp [htasks]) r ⟨hty, hdata, rfl⟩
            exact .relayed r _ hair hleft hmetric httl
      · intro task ht
        rcases hq.timers task ht with ht | hty
        · exact h.timers n task ht
        · exact hty
      · intro task ht
        have ht' : task ∈ (σ.engine n).tasks := hq.tasks ▸ List.mem_of_mem_tail ht
        exact h.tasks n task ht'

theorem Hops.step {act : Act Node} (h : Hops σ) (hstep : Net.anyStep D act σ = some σ') :
    Hops σ' := by
  cases act with
  | tick ms =>
      obtain rfl := Option.some.inj hstep
      exact ⟨h.agree, h.trail, h.timers, h.tasks⟩
  | output n mem stale daddr =>
      obtain rfl := Option.some.inj hstep
      exact h.output _ daddr
  | receive n mem stale dev i =>
      obtain ⟨s, hs, hstep⟩ := Option.bind_eq_some_iff.mp hstep
      split_ifs at hstep
      obtain rfl := Option.some.inj hstep
      exact h.input _ dev (List.mem_of_getElem? hs)
  | signal n =>
      obtain rfl := Option.some.inj hstep
      exact h.signal _
  | work n mem stale =>
      obtain ⟨done, hdone, rfl⟩ := Option.map_eq_some_iff.mp hstep
      exact h.work hdone

theorem hops_visits {acts : List (Act Node)} (h : Visits (Net.anyStep D) D.start acts σ) :
    Hops σ := h.invariant (fun hs hstep => hs.step hstep) (hops_start D)

end Steps

/-! ## The reverse routes -/

/-- Every entry of the later table kept the metric it had, or has one that `P` allows. -/
def MetricsFrom (P : U32 → U8 → Prop) (t t' : RouteTable) : Prop :=
  ∀ p r', (p, r') ∈ t'.cells →
    (∃ r, (p, r) ∈ t.cells ∧ r'.ip = r.ip ∧ r'.metric = r.metric) ∨ P r'.ip r'.metric

namespace MetricsFrom

variable {P : U32 → U8 → Prop} {t t' t'' : RouteTable}

theorem refl (t : RouteTable) : MetricsFrom P t t := fun _ r hr => .inl ⟨r, hr, rfl, rfl⟩

theorem trans (h : MetricsFrom P t t') (h' : MetricsFrom P t' t'') : MetricsFrom P t t'' := by
  intro p r hr
  rcases h' p r hr with ⟨r', hr', hip, hmetric⟩ | hP
  · rw [hip, hmetric]
    exact h p r' hr'
  · exact .inr hP

theorem aged (h : AgedTable env t t') : MetricsFrom P t t' := by
  intro p r hr
  obtain ⟨r', hr', haged⟩ := h.mem_left hr
  refine .inl ⟨r', hr', haged.worn.ip, ?_⟩
  rcases haged.worn with rfl | ⟨_, _, rfl⟩
  · rfl
  · unfold routeExpire
    split <;> rfl

theorem modify {q : ℕ} {f : MeshRoute → MeshRoute}
    (hf : ∀ r, (q, r) ∈ t.cells → (f r).ip = r.ip ∧ (f r).metric = r.metric ∨
      P (f r).ip (f r).metric) : MetricsFrom P t (t.modify q f) := by
  intro p r' hr'
  obtain ⟨r, hr, rfl⟩ := HeapList.mem_modify.mp hr'
  split_ifs with hp
  · subst hp
    rcases hf r hr with ⟨hip, hmetric⟩ | hP
    · exact .inl ⟨r, hr, hip, hmetric⟩
    · exact .inr hP
  · exact .inl ⟨r, hr, rfl, rfl⟩

theorem push {r : MeshRoute} (hr : P r.ip r.metric) : MetricsFrom P t (t.push r) := by
  intro p r' hr'
  rcases List.mem_cons.mp hr' with heq | hr'
  · obtain ⟨rfl, rfl⟩ := Prod.mk.inj heq
    exact .inr hr
  · exact .inl ⟨r', hr', rfl, rfl⟩

theorem updated {neighs : HeapList RouteNeigh} {ip hop seq : U32} {metric : U8}
    (h : Updated conf env neighs ip hop metric seq t t') (hP : P ip metric) :
    MetricsFrom P t t' := by
  cases h with
  | unheard => exact .refl t
  | refused => exact .refl t
  | noMemory => exact .refl t
  | accepted _ hf _ =>
      refine modify fun r hr => .inr ?_
      obtain rfl := HeapList.eq_of_mem hr (firstRoute_mem hf)
      change P r.ip metric
      rwa [firstRoute_ip hf]
  | installed => exact push hP

theorem answered {my : ℕ} {request : AodvPduRequest} {b : Bool}
    (h : Answered conf env my request t t' b) (hP : P request.dstIp 1) : MetricsFrom P t t' := by
  cases h with
  | silent => exact .refl t
  | refreshed => exact modify fun r _ => .inl ⟨routeRefresh_ip r, by simp only [routeRefresh]⟩
  | gatewayed => exact push hP
  | shadowed => exact push hP
  | raised => exact modify fun r _ => .inl ⟨rfl, rfl⟩
  | stands => exact .refl t

end MetricsFrom

/-- A RREQ gives the metric it has reached to the entry for its source; a gateway may
add an entry of its own for the address that is asked for. -/
theorem rxRequest_metrics {task : RouteTask} {request : AodvPduRequest} {e : RouteEngine}
    {done : Done} (h : rxRequest conf env task request e = some done) :
    MetricsFrom (fun ip metric => 1 < task.ttl ∧
      (ip = request.srcIp ∧ metric = request.metric + 1 ∨ ip = request.dstIp ∧ metric = 1))
      e.routes done.engine.routes := by
  rcases rxRequest_cases h with ⟨_, _, t, haged, heng, _⟩ | ⟨t₁, t₂, t₃, t₄, answered, tr⟩
  · rw [heng]
    exact .aged haged
  · have hleft := tr.passes.1
    apply (MetricsFrom.aged tr.aged).trans
    apply (MetricsFrom.updated tr.updated ⟨hleft, .inl ⟨rfl, rfl⟩⟩).trans
    apply (MetricsFrom.aged tr.aged').trans
    apply MetricsFrom.trans _ (.aged tr.aged'')
    exact .answered tr.answer ⟨hleft, .inr ⟨rfl, rfl⟩⟩

/-- The metric of the route back that a waiting RREQ with hops left brings. -/
theorem Hops.back {σ : Net Node} (h : Hops σ) (n : Node) {task : RouteTask}
    {request : AodvPduRequest} (htask : task ∈ (σ.engine n).tasks) (hty : task.type = taskRreq)
    (hdata : task.data = .request request) (hleft : 1 < task.ttl) :
    (request.metric + 1).toNat = request.metric.toNat + 1 ∧
      1 ≤ (request.metric + 1).toNat ∧ (request.metric + 1).toNat ≤ netDiameter.toNat - 1 := by
  obtain ⟨s, hs, hpdu, httl⟩ := h.tasks n task htask request ⟨hty, hdata, rfl⟩
  have hagree := h.agree s hs request hpdu
  rw [httl] at hagree
  obtain ⟨⟨hsum, hone⟩, hsucc⟩ := hagree.hop hleft
  dsimp only at hsum
  exact ⟨hsucc, by omega, by omega⟩

/-- In every run of a network: the metric and the TTL of each RREQ in the air add up to
`NET_DIAMETER`; it came along a trail with one transmission more than its metric says,
and no trail is longer than `NET_DIAMETER`; and the metric of the route back that a waiting
RREQ with hops left brings, and of every entry that it leaves in a routing table, is between 1
and `NET_DIAMETER - 1`. -/
theorem rreq_hops [DecidableEq Node] {D : Deployment Node} {acts : List (Act Node)} {σ : Net Node}
    (h : Visits (Net.anyStep D) D.start acts σ) :
    (∀ s ∈ σ.air, ∀ request, s.2.pdu = .request request →
      request.metric.toNat + s.2.ttl.toNat = netDiameter.toNat ∧ 1 ≤ s.2.ttl.toNat ∧
      ∃ trail, Trail σ.air (s :: trail) ∧ trail.length = request.metric.toNat) ∧
    (∀ trail, Trail σ.air trail → trail.length ≤ netDiameter.toNat) ∧
    (∀ n task request, task ∈ (σ.engine n).tasks → task.type = taskRreq →
      task.data = .request request → 1 < task.ttl →
      1 ≤ (request.metric + 1).toNat ∧ (request.metric + 1).toNat ≤ netDiameter.toNat - 1) ∧
    ∀ n env task request done, task ∈ (σ.engine n).tasks → task.type = taskRreq →
      task.data = .request request →
      rxRequest (D.conf n) env task request (σ.engine n) = some done →
      ∀ p r', (p, r') ∈ done.engine.routes.cells →
        (∃ r, (p, r) ∈ (σ.engine n).routes.cells ∧ r'.ip = r.ip ∧ r'.metric = r.metric) ∨
        (r'.ip = request.srcIp ∧ r'.metric.toNat = request.metric.toNat + 1 ∨
          r'.ip = request.dstIp) ∧
          1 ≤ r'.metric.toNat ∧ r'.metric.toNat ≤ netDiameter.toNat - 1 := by
  have hops := hops_visits h
  have hten : netDiameter.toNat = 10 := rfl
  refine ⟨?_, ?_, ?_, ?_⟩
  · intro s hs request hpdu
    obtain ⟨hsum, hleft⟩ := hops.agree s hs request hpdu
    exact ⟨hsum, hleft, hops.trail s hs request hpdu⟩
  · intro trail htrail
    cases trail with
    | nil => exact Nat.zero_le _
    | cons s trail =>
        obtain ⟨request, hpdu, hlen, hs⟩ := hops.trail_length htrail
        obtain ⟨hsum, hleft⟩ := hops.agree s hs request hpdu
        rw [List.length_cons]
        omega
  · intro n task request htask hty hdata hleft
    exact (hops.back n htask hty hdata hleft).2
  · intro n env task request done htask hty hdata hdone p r' hr'
    rcases rxRequest_metrics hdone p r' hr' with hold | ⟨hleft, hcase⟩
    · exact .inl hold
    · right
      obtain ⟨hsucc, hone, hmost⟩ := hops.back n htask hty hdata hleft
      rcases hcase with ⟨hip, hmetric⟩ | ⟨hip, hmetric⟩
      · rw [hmetric]
        exact ⟨.inl ⟨hip, hsucc⟩, hone, hmost⟩
      · rw [hmetric, hten]
        exact ⟨.inr hip, by decide, by decide⟩

def requestMetric? : Pdu → Option U8
  | .request request => some request.metric
  | _ => none

theorem eq_request_of_metric {pdu : Pdu} {metric : U8} (h : requestMetric? pdu = some metric) :
    ∃ request, pdu = .request request ∧ request.metric = metric := by
  cases pdu with
  | request request => exact ⟨request, rfl, Option.some.inj h⟩
  | none => cases h
  | reply reply => cases h
  | error error => cases h
  | replyAck => cases h

/-- The request of node 2 has been repeated by nodes 0 and 1. -/
theorem rreq_hops_lookup : ∃ σ, Visits (Net.anyStep trio) trio.start lookup σ ∧
    (∃ s ∈ σ.air, ∃ request, s.2.pdu = .request request ∧ request.metric = 2 ∧ s.2.ttl = 8 ∧
      ∃ trail, Trail σ.air (s :: trail) ∧ trail.length = 2) ∧
    ∀ trail, Trail σ.air trail → trail.length ≤ 10 := by
  have hrun : (finish (Net.anyStep trio) lookup trio.start).any (fun σ => decide (∃ s ∈ σ.air,
      s.2.ttl = 8 ∧ requestMetric? s.2.pdu = some 2)) = true := by
    decide +kernel
  obtain ⟨σ, hv, s, hs, httl, hpdu⟩ := exists_visits hrun
  obtain ⟨hair, htrails, -, -⟩ := rreq_hops hv
  refine ⟨σ, hv, ⟨s, hs, ?_⟩, htrails⟩
  obtain ⟨request, heq, hmetric⟩ := eq_request_of_metric hpdu
  obtain ⟨_, _, trail, htrail, hlen⟩ := hair s hs request heq
  exact ⟨request, heq, hmetric, httl, trail, htrail, by rw [hlen, hmetric]; rfl⟩

end Maodv
end WirelessMesh
