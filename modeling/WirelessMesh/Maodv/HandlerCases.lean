import WirelessMesh.Maodv.RouteEdits

/-!
# One case lemma for each handler

Which lookups and writes a handler runs, in which order, what it leaves of the
rest of the engine and what it sends. Everything proved about the engine later
starts from these lemmas, not from the code.
-/

namespace WirelessMesh
namespace Maodv

open Routes

variable {conf : EngineConf} {env : Env}

/-! ## `_engine_rx_request` -/

theorem sendReply_spec (conf : EngineConf) (env : Env) (srcIp dstIp : U32) (e : RouteEngine) :
    ∃ t, AgedTable env e.routes t ∧
      (sendReply conf env srcIp dstIp e).engine = { e with routes := t } ∧
      ∀ f ∈ (sendReply conf env srcIp dstIp e).sent, ∃ src q dest,
        src.ip = srcIp ∧ firstRoute t dstIp = some (q, dest) ∧
        f ∈ conf.unicast src.nextHop netDiameter (.reply (pduReply env src dest)) := by
  have hsrc := firstRoute_routeFind env srcIp e.routes
  have hw := routeFind_aged env srcIp e.routes
  rw [← routeFind_found] at hsrc
  unfold sendReply
  generalize routeFind env srcIp e.routes = res at hsrc hw
  obtain ⟨t1, found⟩ := res
  cases found with
  | none => exact ⟨t1, hw, rfl, by simp⟩
  | some c =>
      obtain ⟨p, src⟩ := c
      have hdst := firstRoute_routeFind env dstIp t1
      have hw' := routeFind_aged env dstIp t1
      rw [← routeFind_found] at hdst
      simp only
      generalize routeFind env dstIp t1 = res at hdst hw'
      obtain ⟨t2, found⟩ := res
      cases found with
      | none => exact ⟨t2, hw.trans hw', rfl, by simp⟩
      | some c =>
          obtain ⟨q, dest⟩ := c
          refine ⟨t2, hw.trans hw', rfl, ?_⟩
          intro f hf
          simp only at hf hdst
          split_ifs at hf with hm
          · exact ⟨src, q, dest, firstRoute_ip hsrc, hdst, hf⟩
          · simp at hf

def RequestPasses (env : Env) (packet : RouteTask) (request : AodvPduRequest) (e : RouteEngine) :
    Prop :=
  1 < packet.ttl ∧ floodFind env request.srcIp request.rreqId e.floods = none ∧
    neighValid env packet.srcIp e.neighs = true

/-- A RREQ that passed its checks: the table on the way, and what was sent. -/
structure RequestTrace (conf : EngineConf) (env : Env) (packet : RouteTask)
    (request : AodvPduRequest) (e : RouteEngine) (done : Done) (t₁ t₂ t₃ t₄ : RouteTable)
    (answered : Bool) : Prop where
  passes : RequestPasses env packet request e
  ret : done.ret = 0
  aged : AgedTable env e.routes t₁
  reverse : firstRoute t₁ request.srcIp =
    (firstRoute e.routes request.srcIp).map fun c => (c.1, ageRoute env c.2)
  updated : Updated conf env e.neighs request.srcIp packet.srcIp (request.metric + 1)
    request.srcSeq t₁ t₂
  aged' : AgedTable env t₂ t₃
  answer : Answered conf env e.myRoute { request with metric := request.metric + 1 } t₃ t₄ answered
  aged'' : AgedTable env t₄ done.engine.routes
  engine : done.engine = { e with
    routes := done.engine.routes
    floods := (floodInsert env request.srcIp request.dstIp request.rreqId
      (env.now + pathDiscoveryTime) e.floods).1 }
  forwarded : answered = false →
    done.sent = conf.broadcast (packet.ttl - 1)
      (.request { request with metric := request.metric + 1 })
  replied : answered = true → ∀ f ∈ done.sent, ∃ src q dest,
    src.ip = request.srcIp ∧ firstRoute done.engine.routes request.dstIp = some (q, dest) ∧
    f ∈ conf.unicast src.nextHop netDiameter (.reply (pduReply env src dest))

theorem rxRequest_cases {packet : RouteTask} {request : AodvPduRequest} {e : RouteEngine}
    {done : Done} (h : rxRequest conf env packet request e = some done) :
    (¬RequestPasses env packet request e ∧ done.ret ≠ 0 ∧ ∃ t, AgedTable env e.routes t ∧
        done.engine = { e with routes := t } ∧ done.sent = []) ∨
      ∃ t₁ t₂ t₃ t₄ answered,
        RequestTrace conf env packet request e done t₁ t₂ t₃ t₄ answered := by
  unfold rxRequest at h
  split_ifs at h with httl
  · obtain rfl := Option.some.inj h
    refine .inl ⟨fun hp => ?_, by simp [etimedout], e.routes, .refl _, rfl, rfl⟩
    exact absurd hp.1 (by simpa using httl)
  · simp only [checkRequest] at h
    by_cases hfl : (floodFind env request.srcIp request.rreqId e.floods).isSome = true
    · obtain rfl := by simpa [hfl] using h
      refine .inl ⟨fun hp => ?_, by simp, e.routes, .refl _, rfl, rfl⟩
      simp [hp.2.1] at hfl
    · simp only [hfl, Bool.false_eq_true, if_false] at h
      have hw := routeFind_aged env request.srcIp e.routes
      have hent := firstRoute_routeFind env request.srcIp e.routes
      generalize (routeFind env request.srcIp e.routes).1 = t₀ at h hw hent
      by_cases hn : neighValid env packet.srcIp e.neighs = true
      · right
        simp only [hn, Bool.not_true, Bool.false_eq_true, if_false] at h
        obtain ⟨dev, -, h⟩ := Option.bind_eq_some_iff.mp h
        obtain ⟨t₂, hup, heq⟩ := routeUpdate_spec conf env request.srcIp
          packet.srcIp (request.metric + 1) request.srcSeq { e with routes := t₀ }
        dsimp only at hup
        simp only [heq] at h
        obtain ⟨⟨e₄, b⟩, hdec, h⟩ := Option.bind_eq_some_iff.mp h
        obtain ⟨t₄, hans, rfl⟩ := requestShouldBeReply_spec hdec
        have hw₁ := routeFind_aged env request.srcIp t₀
        have hent₁ := firstRoute_routeFind env request.srcIp t₀
        rw [hent] at hent₁
        have hrev : firstRoute (routeFind env request.srcIp t₀).1 request.srcIp =
            (firstRoute e.routes request.srcIp).map fun c => (c.1, ageRoute env c.2) := by
          rw [hent₁]
          simp [Option.map_map, Function.comp_def, ageRoute_idem]
        have hfl' : floodFind env request.srcIp request.rreqId e.floods = none := by
          simpa using hfl
        have httl' : 1 < packet.ttl := by simpa using httl
        cases b with
        | false =>
            obtain rfl := Option.some.inj h
            exact ⟨_, t₂, _, t₄, false, ⟨httl', hfl', hn⟩, rfl, hw.trans hw₁, hrev, hup,
              routeFind_aged _ _ _, hans, .refl _, rfl, fun _ => rfl, by simp⟩
        | true =>
            simp only [if_true] at h
            obtain ⟨t₅, hw₅, heng, hsent⟩ := sendReply_spec conf env
              request.srcIp request.dstIp
              { e with
                routes := t₄
                floods := (floodInsert env request.srcIp request.dstIp request.rreqId
                  (env.now + pathDiscoveryTime) e.floods).1 }
            obtain rfl := Option.some.inj h
            refine ⟨_, t₂, _, t₄, true, ⟨httl', hfl', hn⟩, rfl, hw.trans hw₁, hrev, hup,
              routeFind_aged _ _ _, hans, ?_, ?_, by simp, fun _ => ?_⟩
            · simpa [heng] using hw₅
            · simp [heng]
            · simpa [heng] using hsent
      · obtain rfl := by simpa [hn] using h
        exact .inl ⟨fun hp => hn hp.2.2, by simp, t₀, hw, rfl, rfl⟩

/-! ## `_engine_rx_hello` -/

/-- A HELLO that found or made its neighbour record: the entry for the neighbour
is overwritten whatever it held. -/
structure HelloTrace (conf : EngineConf) (env : Env) (reply : AodvPduReply) (e : RouteEngine)
    (done : Done) (t : RouteTable) (dev : Option RouteDev) : Prop where
  recorded : neighFind reply.dstIp e.neighs ≠ none ∨ env.mem .neigh = true
  aged : AgedTable env e.routes t
  found : firstRoute t reply.dstIp =
    (firstRoute e.routes reply.dstIp).map fun c => (c.1, ageRoute env c.2)
  routes : done.engine.routes = match firstRoute t reply.dstIp with
    | some (p, _) => t.modify p (routeHello env dev reply.dstIp reply)
    | none => t.push (routeHello env dev reply.dstIp reply (routeNew conf env reply.dstIp))
  neighs : ∀ p n, (p, n) ∈ done.engine.neighs.cells →
    n.ip = reply.dstIp ∨ ∃ m, (p, m) ∈ e.neighs.cells ∧ m.ip = n.ip
  timers : ∀ task ∈ done.engine.timers, task ∈ e.timers ∨ task.type = taskNeighbor
  floods : done.engine.floods = e.floods
  tasks : done.engine.tasks = e.tasks
  myRoute : done.engine.myRoute = e.myRoute
  sent : done.sent = []

theorem mem_timerEnqueue {timer task : RouteTask} {timers : List RouteTask}
    (h : task ∈ timerEnqueue timer timers) : task ∈ timers ∨ task = timer := by
  unfold timerEnqueue at h
  split_ifs at h
  · exact .inl h
  · rcases List.mem_cons.mp h with h | h
    · exact .inr h
    · exact .inl h

theorem mem_timerInsert {type ip delay : U32} {task : RouteTask} {timers : List RouteTask}
    (h : task ∈ (timerInsert env type ip delay timers).1) :
    task ∈ timers ∨ (task.type = type ∧ task.srcIp = ip) := by
  unfold timerInsert at h
  split_ifs at h
  · rcases mem_timerEnqueue h with h | rfl
    · exact .inl h
    · exact .inr ⟨rfl, rfl⟩
  · exact .inl h

theorem mem_timerDelete {type id : U32} {task : RouteTask} {timers : List RouteTask}
    (h : task ∈ timerDelete type id timers) : task ∈ timers := List.mem_of_mem_filter h

theorem neighUpdateRoute_spec {neigh : RouteNeigh} {reply : AodvPduReply} {t t' : RouteTable}
    (h : neighUpdateRoute conf env neigh reply t = some t') :
    t' = match firstRoute (routeFind env neigh.ip t).1 neigh.ip with
      | some (p, _) => (routeFind env neigh.ip t).1.modify p
          (routeHello env neigh.dev neigh.ip reply)
      | none => (routeFind env neigh.ip t).1.push
          (routeHello env neigh.dev neigh.ip reply (routeNew conf env neigh.ip)) := by
  have hent := firstRoute_routeFind env neigh.ip t
  rw [← routeFind_found] at hent
  unfold neighUpdateRoute at h
  generalize routeFind env neigh.ip t = res at hent h
  obtain ⟨t₁, found⟩ := res
  simp only at hent
  rw [hent]
  cases found with
  | none =>
      simp only at h
      split_ifs at h
      exact (Option.some.inj h).symm
  | some c => exact (Option.some.inj h).symm

theorem rxHello_cases {packet : RouteTask} {reply : AodvPduReply} {e : RouteEngine} {done : Done}
    (h : rxHello conf env packet reply e = some done) :
    (neighFind reply.dstIp e.neighs = none ∧ env.mem .neigh = false ∧ done = ⟨-1, e, []⟩) ∨
      ∃ t dev, HelloTrace conf env reply e done t dev := by
  unfold rxHello at h
  cases hn : neighFind reply.dstIp e.neighs with
  | none =>
      simp only [hn, neighInsert, Option.isSome_none, Bool.false_eq_true, if_false] at h
      by_cases hm : env.mem .neigh = true
      · right
        simp only [hm, if_true, Option.map_some] at h
        obtain ⟨t', ht', h⟩ := Option.bind_eq_some_iff.mp h
        obtain rfl := Option.some.inj h
        refine ⟨_, packet.dev, .inr hm, routeFind_aged _ _ _, firstRoute_routeFind _ _ _,
          neighUpdateRoute_spec ht', ?_, ?_, rfl, rfl, rfl, rfl⟩
        · intro p n hpn
          obtain ⟨m, hm', rfl⟩ := HeapList.mem_modify.mp hpn
          rcases List.mem_cons.mp hm' with heq | hm'
          · obtain ⟨rfl, rfl⟩ := Prod.mk.inj heq
            left
            split_ifs <;> rfl
          · refine .inr ⟨m, hm', ?_⟩
            split_ifs <;> rfl
        · intro task htask
          rcases mem_timerInsert htask with htask | ⟨hty, -⟩
          · exact .inl (mem_timerDelete htask)
          · exact .inr hty
      · left
        obtain rfl := by simpa [hm] using h
        exact ⟨rfl, by simpa using hm, rfl⟩
  | some c =>
      right
      obtain ⟨q, neigh⟩ := c
      have hip : neigh.ip = reply.dstIp := by simpa using HeapList.of_find? hn
      simp only [hn] at h
      obtain ⟨t', ht', h⟩ := Option.bind_eq_some_iff.mp h
      obtain rfl := Option.some.inj h
      have hr := neighUpdateRoute_spec ht'
      rw [hip] at hr
      refine ⟨_, neigh.dev, .inl (by simp [hn]), routeFind_aged _ _ _,
        firstRoute_routeFind _ _ _, hr, ?_, ?_,
        rfl, rfl, rfl, rfl⟩
      · intro p n hpn
        obtain ⟨m, hm', rfl⟩ := HeapList.mem_modify.mp hpn
        refine .inr ⟨m, hm', ?_⟩
        split_ifs <;> rfl
      · intro task htask
        rcases mem_timerInsert htask with htask | ⟨hty, -⟩
        · exact .inl (mem_timerDelete htask)
        · exact .inr hty

/-! ## `_engine_rx_reply` -/

structure ReplyTrace (conf : EngineConf) (env : Env) (packet : RouteTask) (reply : AodvPduReply)
    (e : RouteEngine) (done : Done) (t₁ t₂ : RouteTable) : Prop where
  notHello : reply.srcIp ≠ reply.dstIp
  heard : neighValid env packet.srcIp e.neighs = true
  aged : AgedTable env e.routes t₁
  found : firstRoute t₁ reply.dstIp =
    (firstRoute e.routes reply.dstIp).map fun c => (c.1, ageRoute env c.2)
  updated : Updated conf env e.neighs reply.dstIp packet.srcIp (reply.metric + 1) reply.dstSeq t₁ t₂
  aged' : AgedTable env t₂ done.engine.routes
  engine : done.engine = { e with
    routes := done.engine.routes
    timers := timerDelete reply.dstIp taskResendRreq e.timers }
  sent : ∀ f ∈ done.sent, ∃ route : MeshRoute, route.selfRoute = false ∧
    f ∈ conf.unicast route.nextHop netDiameter (.reply { reply with metric := reply.metric + 1 })

theorem rxReply_cases {packet : RouteTask} {reply : AodvPduReply} {e : RouteEngine} {done : Done}
    (h : rxReply conf env packet reply e = some done) :
    (reply.srcIp = reply.dstIp ∧ ∃ d, rxHello conf env packet reply e = some d ∧
        done = ⟨0, d.engine, []⟩) ∨
      (reply.srcIp ≠ reply.dstIp ∧ neighValid env packet.srcIp e.neighs = false ∧
        done = ⟨0, e, []⟩) ∨
      ∃ t₁ t₂, ReplyTrace conf env packet reply e done t₁ t₂ := by
  unfold rxReply checkReply at h
  by_cases hsame : reply.srcIp = reply.dstIp
  · left
    obtain ⟨⟨e₁, ok⟩, hcheck, h⟩ := Option.bind_eq_some_iff.mp h
    simp only [hsame, beq_self_eq_true, if_true] at hcheck
    obtain ⟨d, hd, hcheck⟩ := Option.bind_eq_some_iff.mp hcheck
    obtain ⟨rfl, rfl⟩ := by simpa using hcheck
    obtain rfl := Option.some.inj h
    exact ⟨hsame, d, hd, rfl⟩
  · right
    have hne : (reply.srcIp == reply.dstIp) = false := by simpa using hsame
    obtain ⟨⟨e₁, ok⟩, hcheck, h⟩ := Option.bind_eq_some_iff.mp h
    simp only [hne, Bool.false_eq_true, if_false] at hcheck
    by_cases hn : neighValid env packet.srcIp e.neighs = true
    · right
      obtain ⟨rfl, rfl⟩ := by simpa [hn] using hcheck
      simp only [Bool.not_true, Bool.false_eq_true, if_false] at h
      obtain ⟨dev, -, h⟩ := Option.bind_eq_some_iff.mp h
      obtain ⟨t₂, hup, heq⟩ := routeUpdate_spec conf env reply.dstIp
        packet.srcIp (reply.metric + 1) reply.dstSeq
        { e with timers := timerDelete reply.dstIp taskResendRreq e.timers }
      dsimp only at hup
      simp only [heq] at h
      have hw := routeFind_aged env reply.srcIp t₂
      generalize routeFind env reply.srcIp t₂ = res at h hw
      obtain ⟨t₃, found⟩ := res
      have hpre : ∀ d : Done, d.engine = { e with
            routes := t₃, timers := timerDelete reply.dstIp taskResendRreq e.timers } →
          (∀ f ∈ d.sent, ∃ route : MeshRoute, route.selfRoute = false ∧
            f ∈ conf.unicast route.nextHop netDiameter
              (.reply { reply with metric := reply.metric + 1 })) →
          ReplyTrace conf env packet reply e d (routeFind env reply.dstIp e.routes).1 t₂ := by
        intro d hd hs
        refine ⟨hsame, hn, routeFind_aged _ _ _, firstRoute_routeFind _ _ _, hup, ?_, ?_, hs⟩
        · rw [hd]; exact hw
        · rw [hd]
      refine ⟨(routeFind env reply.dstIp e.routes).1, t₂, ?_⟩
      cases found with
      | none =>
          obtain rfl := Option.some.inj h
          exact hpre _ rfl (by simp)
      | some c =>
          obtain ⟨p, route⟩ := c
          by_cases hself : route.selfRoute = true
          · obtain rfl := by simpa [hself] using h
            exact hpre _ rfl (by simp)
          · obtain rfl := by simpa [hself] using h
            exact hpre _ rfl fun f hf => ⟨route, by simpa using hself, hf⟩
    · left
      obtain ⟨rfl, rfl⟩ := by simpa [hn] using hcheck
      obtain rfl := Option.some.inj h
      exact ⟨hsame, by simpa using hn, rfl⟩

/-! ## `_engine_rx_error` -/

/-- The first listed destination that the engine reaches through the sender of
the RERR, with its entry. -/
def errorHit (srcIp : U32) (t : RouteTable) : List AodvDest → Option (AodvDest × ℕ × MeshRoute)
  | [] => none
  | errDest :: dests =>
      match firstRoute t errDest.ip with
      | some (p, r) =>
          if !r.selfRoute && r.nextHop == srcIp then some (errDest, p, r)
          else errorHit srcIp t dests
      | none => errorHit srcIp t dests

/-- The loop only ages the table until the first hit; it comes back from a hit
only when the allocation fails, with the number already written. -/
theorem rxErrorLoop_cases {srcIp : U32} {dests : List AodvDest} {i : ℕ} {t₀ t t' : RouteTable}
    (ht : AgedTable env t₀ t) (h : rxErrorLoop env srcIp dests i t = some t') :
    (errorHit srcIp t₀ dests = none ∧ AgedTable env t₀ t') ∨
      ∃ errDest p r t₁, errorHit srcIp t₀ dests = some (errDest, p, r) ∧
        (p, r) ∈ t₀.cells ∧ r.selfRoute = false ∧ AgedTable env t₀ t₁ ∧
        t' = t₁.modify p fun r => { r with seq := errDest.seq } := by
  induction dests generalizing i t with
  | nil =>
      obtain rfl : t = t' := by simpa [rxErrorLoop] using h
      exact .inl ⟨rfl, ht⟩
  | cons errDest dests ih =>
      have ht₁ := ht.trans (routeFind_aged env errDest.ip t)
      have hent := firstRoute_routeFind env errDest.ip t
      rw [← routeFind_found] at hent
      simp only [rxErrorLoop] at h
      generalize routeFind env errDest.ip t = res at h ht₁ hent
      obtain ⟨t₁, found⟩ := res
      simp only at hent ht₁
      obtain ⟨hnone, hnone'⟩ | ⟨p, r, r', hr, hr', hrr⟩ := ht₁.worn.firstRoute_eq errDest.ip
      · obtain rfl : found = none := hent.symm.trans hnone'
        simpa [errorHit, hnone] using ih ht₁ h
      · obtain rfl : found = some (p, r') := hent.symm.trans hr'
        simp only [hrr.selfRoute, hrr.nextHop] at h
        split_ifs at h with hhit hmem
        · obtain rfl := Option.some.inj h
          refine .inr ⟨errDest, p, r, t₁, by simp [errorHit, hr, hhit], firstRoute_mem hr, ?_, ht₁,
            rfl⟩
          simp only [Bool.and_eq_true, Bool.not_eq_true'] at hhit
          exact hhit.1
        · simpa [errorHit, hr, hhit] using ih ht₁ h

theorem rxError_cases {packet : RouteTask} {errpdu : AodvPduError} {e : RouteEngine} {done : Done}
    (h : rxError env packet errpdu e = some done) :
    ∃ t, done = ⟨0, { e with routes := t }, []⟩ ∧
      rxErrorLoop env packet.srcIp (errpdu.dests.take errpdu.dstCount.toNat) 0 e.routes =
        some t := by
  obtain ⟨t, ht, h⟩ := Option.bind_eq_some_iff.mp h
  exact ⟨t, (Option.some.inj h).symm, ht⟩

/-! ## Requests -/

inductive FloodStep (env : Env) (floods : List RouteFlood) : List RouteFlood → Prop
  | same : FloodStep env floods floods
  | pushed {flood : RouteFlood} (h : flood.lifetime = env.now + pathDiscoveryTime) :
      FloodStep env floods (flood :: floods)
  | flushed : FloodStep env floods (floods.filter fun flood => !timeBefore flood.lifetime env.now)

theorem floodInsert_step (srcIp dstIp id : U32) (floods : List RouteFlood) :
    FloodStep env floods
      (floodInsert env srcIp dstIp id (env.now + pathDiscoveryTime) floods).1 := by
  unfold floodInsert
  split_ifs
  · exact .same
  · exact .pushed rfl
  · exact .same

/-- A request was issued, or its source has no entry, or the flood record was
refused. -/
structure IssueTrace (conf : EngineConf) (env : Env) (srcIp destIp : U32) (e : RouteEngine)
    (done : Done) (t : RouteTable) : Prop where
  aged : AgedTable env e.routes t
  routes : done.engine.routes = match firstRoute t srcIp with
    | some (p, _) => t.modify p routeBump
    | none => t
  neighs : done.engine.neighs = e.neighs
  timers : ∀ task ∈ done.engine.timers, task ∈ e.timers ∨
    (task.type = taskResendRreq ∧ task.srcIp = srcIp ∧ task.dstIp = destIp)
  floods : FloodStep env e.floods done.engine.floods
  tasks : done.engine.tasks = e.tasks
  myRoute : done.engine.myRoute = e.myRoute
  sent : ∀ f ∈ done.sent, ∃ request : AodvPduRequest,
    f ∈ conf.broadcast netDiameter (.request request) ∧
    request.srcIp = srcIp ∧ request.dstIp = destIp

theorem mem_timerInsertRequest {rreq : AodvPduRequest} {retries : U8} {task : RouteTask}
    {timers : List RouteTask} (h : task ∈ (timerInsertRequest env rreq retries timers).1) :
    task ∈ timers ∨
      (task.type = taskResendRreq ∧ task.srcIp = rreq.srcIp ∧ task.dstIp = rreq.dstIp) := by
  unfold timerInsertRequest at h
  split_ifs at h
  · rcases mem_timerEnqueue h with h | rfl
    · exact .inl h
    · exact .inr ⟨rfl, rfl, rfl⟩
  · exact .inl h

theorem issueRequest_trace (srcIp destIp : U32) (d : Bool) (retries : U8) (e : RouteEngine) :
    ∃ t, IssueTrace conf env srcIp destIp e (issueRequest conf env srcIp destIp d retries e) t := by
  unfold issueRequest
  have hw := routeFind_aged env destIp e.routes
  generalize routeFind env destIp e.routes = res at hw
  obtain ⟨t₁, dst⟩ := res
  have hw' := routeFind_aged env srcIp t₁
  have hent := firstRoute_routeFind env srcIp t₁
  rw [← routeFind_found] at hent
  simp only
  generalize routeFind env srcIp t₁ = res at hw' hent
  obtain ⟨t₂, found⟩ := res
  simp only at hent
  refine ⟨t₂, ?_⟩
  cases found with
  | none =>
      exact ⟨hw.trans hw', by simp [hent], rfl, fun _ ht => .inl ht, .same, rfl, rfl, by simp⟩
  | some c =>
      obtain ⟨p, route⟩ := c
      dsimp only
      split_ifs
      · exact ⟨hw.trans hw', by simp [hent], rfl, fun _ ht => .inl ht, floodInsert_step _ _ _ _,
          rfl, rfl, by simp⟩
      · refine ⟨hw.trans hw', by simp [hent], rfl, ?_, floodInsert_step _ _ _ _, rfl, rfl, ?_⟩
        · intro task ht
          exact mem_timerInsertRequest ht
        · intro f hf
          exact ⟨_, hf, rfl, rfl⟩

theorem sendRequest_cases (conf : EngineConf) (env : Env) (destIp : U32) (e : RouteEngine) :
    ((sendRequest conf env destIp e).engine = e ∧ (sendRequest conf env destIp e).sent = []) ∨
      ∃ t, IssueTrace conf env conf.myIp destIp e (sendRequest conf env destIp e) t := by
  unfold sendRequest
  split_ifs
  · exact .inl ⟨rfl, rfl⟩
  · exact .inl ⟨rfl, rfl⟩
  · exact .inr (issueRequest_trace _ _ _ _ _)

theorem resendRequest_cases (conf : EngineConf) (env : Env) (packet : RouteTask) (e : RouteEngine) :
    ((resendRequest conf env packet e).engine = e ∧
        (resendRequest conf env packet e).sent = []) ∨
      ∃ t, IssueTrace conf env packet.srcIp packet.dstIp e (resendRequest conf env packet e) t := by
  unfold resendRequest
  split_ifs
  · exact .inl ⟨rfl, rfl⟩
  · exact .inl ⟨rfl, rfl⟩
  · exact .inr (issueRequest_trace _ _ _ _ _)

/-! ## `_engine_neigh_delete` -/

theorem sendError_cells (conf : EngineConf) (env : Env) (brkDstIp : U32) (t : RouteTable) :
    (sendError conf env brkDstIp t).1.cells = (errorCells env brkDstIp t.cells [] 0).1 := by
  simp only [sendError]
  split
  · rfl
  · rfl
  · split_ifs <;> rfl

theorem sendError_worn (conf : EngineConf) (env : Env) (brkDstIp : U32) (t : RouteTable) :
    WornTable env t (sendError conf env brkDstIp t).1 := by
  have hcells : ∀ (cs : List (ℕ × MeshRoute)) (dests : List AodvDest) (i : ℕ),
      List.Forall₂ (fun c c' => c.1 = c'.1 ∧ Worn env c.2 c'.2) cs
        (errorCells env brkDstIp cs dests i).1 := by
    intro cs
    induction cs with
    | nil => intro dests i; exact .nil
    | cons c cs ih =>
        intro dests i
        simp only [errorCells]
        split_ifs with hbrk hmem hv
        · simp only [Bool.and_eq_true, Bool.not_eq_true'] at hbrk
          exact .cons ⟨rfl, .inr ⟨hbrk.2, hv, rfl⟩⟩ (ih _ _)
        · exact .cons ⟨rfl, .refl _⟩ (ih _ _)
        · exact List.forall₂_same.mpr fun c _ => ⟨rfl, .refl _⟩
        · exact .cons ⟨rfl, .refl _⟩ (ih _ _)
  change List.Forall₂ _ t.cells (sendError conf env brkDstIp t).1.cells
  rw [sendError_cells]
  exact hcells _ _ _

theorem sendError_sent (conf : EngineConf) (env : Env) (brkDstIp : U32) (t : RouteTable) :
    ∀ f ∈ (sendError conf env brkDstIp t).2,
      ∃ errpdu, f ∈ conf.broadcast netDiameter (.error errpdu) := by
  intro f h
  simp only [sendError] at h
  split at h
  · simp at h
  · simp at h
  · split_ifs at h
    · simp at h
    · exact ⟨_, h⟩

theorem firstRoute_sendError (conf : EngineConf) (env : Env) {ip : U32} {t : RouteTable} {q : ℕ}
    {own : MeshRoute} (hfirst : firstRoute t ip = some (q, own)) :
    ∃ now, firstRoute (sendError conf env ip (routeFind env ip t).1).1 ip = some (q, now) ∧
      Worn env own now := by
  have hworn := (routeFind_aged env ip t).worn.trans
    (sendError_worn conf env ip (routeFind env ip t).1)
  rcases hworn.firstRoute_eq ip with ⟨hnone, -⟩ | ⟨q', own', now, hfirst', hnow, hown⟩
  · rw [hfirst] at hnone
    cases hnone
  · obtain ⟨rfl, rfl⟩ := Prod.mk.inj (Option.some.inj (hfirst.symm.trans hfirst'))
    exact ⟨now, hnow, hown⟩

/-- The tail of `_engine_neigh_delete`, on the table that the RERR has left. -/
def neighTail (env : Env) (q : ℕ) (routes : RouteTable) : Option RouteTable := do
  let now ← routes.get? q
  return if now.routeValid then routes.modify q (routeExpire env) else routes.erase q

/-- The loss of a neighbour is reported and followed by the tail, or is the lookup alone. -/
inductive LossStep (conf : EngineConf) (env : Env) (ip : U32) (t : RouteTable) :
    RouteTable → List Frame → Prop
  | unreported (h : ∀ q own, firstRoute t ip = some (q, own) → own.nextHop ≠ ip) :
      LossStep conf env ip t (routeFind env ip t).1 []
  | reported {q : ℕ} {own : MeshRoute} {t' : RouteTable}
      (hfirst : firstRoute t ip = some (q, own)) (hhop : own.nextHop = ip)
      (htail : neighTail env q (sendError conf env ip (routeFind env ip t).1).1 = some t') :
      LossStep conf env ip t t' (sendError conf env ip (routeFind env ip t).1).2

theorem neighDelete_of_known (conf : EngineConf) (env : Env) {ip : U32} {e : RouteEngine} {p : ℕ}
    {n : RouteNeigh} (hneigh : neighFind ip e.neighs = some (p, n)) :
    ∃ t sent, LossStep conf env ip e.routes t sent ∧
      neighDelete conf env ip e = some ⟨0, { e with
        neighs := e.neighs.erase p, timers := timerDelete ip taskNeighbor e.timers, routes := t },
        sent⟩ := by
  unfold neighDelete
  rw [hneigh]
  dsimp only
  have hfound := routeFind_found env ip e.routes
  cases hfirst : firstRoute e.routes ip with
  | none =>
      rw [hfirst, Option.map_none] at hfound
      rw [hfound]
      exact ⟨_, _, .unreported fun q own heq => by simp [hfirst] at heq, rfl⟩
  | some c =>
      obtain ⟨q, own⟩ := c
      have hip : (ageRoute env own).ip = ip := by rw [ageRoute_ip, firstRoute_ip hfirst]
      have hhop : (ageRoute env own).nextHop = own.nextHop := (worn_ageRoute own).nextHop
      rw [hfirst, Option.map_some] at hfound
      rw [hfound]
      dsimp only
      rw [hip, hhop]
      by_cases hdirect : own.nextHop = ip
      · obtain ⟨now, hnow, -⟩ := firstRoute_sendError conf env hfirst
        have hget := HeapList.get?_eq_some.mpr (firstRoute_mem hnow)
        have hdelete : routeDelete now.ip
            (sendError conf env ip (routeFind env ip e.routes).1).1 =
              (sendError conf env ip (routeFind env ip e.routes).1).1.erase q := by
          unfold routeDelete
          rw [firstRoute_ip hnow, show HeapList.find? _ _ = some (q, now) from hnow]
        have htail : LossStep conf env ip e.routes _ _ :=
          .reported hfirst hdirect (Option.bind_eq_some_iff.mpr ⟨now, hget, rfl⟩)
        refine ⟨_, _, htail, ?_⟩
        rw [if_pos (by simp [hdirect])]
        simp only [hget, hdelete, Option.bind_eq_bind, Option.bind_some]
        split_ifs <;> rfl
      · rw [if_neg (by simp [hdirect])]
        refine ⟨_, _, .unreported fun q' own' heq => ?_, rfl⟩
        obtain ⟨-, rfl⟩ := Prod.mk.inj (Option.some.inj (hfirst.symm.trans heq))
        exact hdirect

/-- The direct route of a lost neighbour is expired if it is still valid after
the RERR, which happens only to a route without a device, and unlinked otherwise. -/
structure NeighDeleteTrace (conf : EngineConf) (env : Env) (ip : U32) (e : RouteEngine)
    (done : Done) (t : RouteTable) : Prop where
  known : ∃ p n, (p, n) ∈ e.neighs.cells ∧ n.ip = ip
  aged : WornTable env e.routes t
  routes : done.engine.routes = t ∨
    (∃ q r, firstRoute t ip = some (q, r) ∧ r.nextHop = ip ∧ r.routeValid = true ∧
      done.engine.routes = t.modify q (routeExpire env)) ∨
    (∃ q r, firstRoute t ip = some (q, r) ∧ r.nextHop = ip ∧ r.routeValid = false ∧
      done.engine.routes = t.erase q)
  neighs : ∀ c ∈ done.engine.neighs.cells, c ∈ e.neighs.cells
  timers : ∀ task ∈ done.engine.timers, task ∈ e.timers
  floods : done.engine.floods = e.floods
  tasks : done.engine.tasks = e.tasks
  myRoute : done.engine.myRoute = e.myRoute
  sent : ∀ f ∈ done.sent, ∃ errpdu, f ∈ conf.broadcast netDiameter (.error errpdu)

theorem neighDelete_cases {ip : U32} {e : RouteEngine} {done : Done}
    (h : neighDelete conf env ip e = some done) :
    done = ⟨enodata, e, []⟩ ∨ ∃ t, NeighDeleteTrace conf env ip e done t := by
  cases hn : neighFind ip e.neighs with
  | none =>
      rw [neighDelete, hn] at h
      exact .inl (Option.some.inj h).symm
  | some c =>
      right
      obtain ⟨p, n⟩ := c
      have hknown : ∃ p n, (p, n) ∈ e.neighs.cells ∧ n.ip = ip :=
        ⟨p, n, HeapList.mem_of_find? hn, by simpa using HeapList.of_find? hn⟩
      have hneighs : ∀ c ∈ (e.neighs.erase p).cells, c ∈ e.neighs.cells :=
        fun c hc => (HeapList.mem_erase.mp hc).1
      have hw := (routeFind_aged env ip e.routes).worn
      obtain ⟨t, sent, hloss, hdone⟩ := neighDelete_of_known conf env hn
      obtain rfl := Option.some.inj (hdone.symm.trans h)
      cases hloss with
      | unreported _ =>
          exact ⟨_, hknown, hw, .inl rfl, hneighs, fun _ => mem_timerDelete, rfl, rfl, rfl, by simp⟩
      | @reported q own _ hfirst hhop htail =>
          obtain ⟨now, hnow, hown⟩ := firstRoute_sendError conf env hfirst
          have hnext : now.nextHop = ip := hown.nextHop.trans hhop
          refine ⟨_, hknown, hw.trans (sendError_worn conf env ip _), .inr ?_, hneighs,
            fun _ => mem_timerDelete, rfl, rfl, rfl, sendError_sent conf env ip _⟩
          rw [neighTail, HeapList.get?_eq_some.mpr (firstRoute_mem hnow)] at htail
          have htail := Option.some.inj htail
          cases hv : now.routeValid with
          | true =>
              rw [if_pos hv] at htail
              exact .inl ⟨q, now, hnow, hnext, hv, htail.symm⟩
          | false =>
              rw [if_neg (by simp [hv])] at htail
              exact .inr ⟨q, now, hnow, hnext, hv, htail.symm⟩

/-! ## Cleanup and outgoing packets -/

/-- A flush wears the table and unlinks entries that are neither self routes nor
valid. -/
theorem routeFlush_cases (env : Env) (t : RouteTable) :
    ∃ t', WornTable env t' (routeFlush env t) ∧ (∀ c ∈ t'.cells, c ∈ t.cells) ∧
      ∀ c ∈ t.cells, c.2.selfRoute = true → c ∈ t'.cells := by
  refine ⟨_, HeapList.map_pointwise ?_, fun c hc => (HeapList.mem_filter.mp hc).1, ?_⟩
  · intro p r hr
    split_ifs with hs
    · have hv : r.routeValid = true := by simpa [hs] using (HeapList.mem_filter.mp hr).2
      simp only [routeStale, Bool.and_eq_true, Bool.not_eq_true'] at hs
      exact .inr ⟨hs.2, hv, rfl⟩
    · exact .refl r
  · intro c hc hself
    exact HeapList.mem_filter.mpr ⟨hc, by simp [routeStale, hself]⟩

/-! ## HELLO and the dispatch -/

/-- A HELLO is not sent for want of memory, or carries the number of `myRoute`. -/
theorem sendHello_cases {e : RouteEngine} {done : Done} (h : sendHello conf env e = some done) :
    done = ⟨0, e, []⟩ ∨
      ∃ my, (e.myRoute, my) ∈ e.routes.cells ∧
        done.engine = { e with
          timers := (timerInsert env taskHello conf.myIp helloInterval e.timers).1 } ∧
        ∀ f ∈ done.sent, ∃ reply : AodvPduReply, f ∈ conf.broadcast 1 (.reply reply) ∧
          reply.srcIp = my.ip ∧ reply.dstIp = my.ip ∧ reply.dstSeq = my.seq := by
  unfold sendHello at h
  split_ifs at h
  · exact .inl (Option.some.inj h).symm
  · obtain ⟨my, hmy, h⟩ := Option.bind_eq_some_iff.mp h
    obtain rfl := Option.some.inj h
    exact .inr ⟨my, HeapList.get?_eq_some.mp hmy, rfl, fun f hf => ⟨_, hf, rfl, rfl, rfl⟩⟩

/-- What `aodv_kthread` calls for a task. -/
inductive Dispatched (conf : EngineConf) (env : Env) (task : RouteTask) (e : RouteEngine)
    (done : Done) : Prop
  | request (request : AodvPduRequest) (hty : task.type = taskRreq)
      (hdata : task.data = .request request) (h : rxRequest conf env task request e = some done)
  | reply (reply : AodvPduReply) (hty : task.type = taskRrep) (hdata : task.data = .reply reply)
      (h : rxReply conf env task reply e = some done)
  | error (errpdu : AodvPduError) (hty : task.type = taskRerr) (hdata : task.data = .error errpdu)
      (h : rxError env task errpdu e = some done)
  | cleanup (hty : task.type = taskCleanup) (h : done.engine = { (floodFlush conf env e).1 with
      routes := routeFlush env e.routes }) (hsent : done.sent = [])
  | hello (hty : task.type = taskHello) (h : sendHello conf env e = some done)
  | neighbor (hty : task.type = taskNeighbor) (h : neighDelete conf env task.srcIp e = some done)
  | routeCleanup (hty : task.type = taskRouteCleanup)
      (h : done.engine = { e with routes := routeFlush env e.routes }) (hsent : done.sent = [])
  | resend (hty : task.type = taskResendRreq) (h : done = resendRequest conf env task e)
  | nothing (h : done.engine = e) (hsent : done.sent = [])

theorem handleTask_cases {task : RouteTask} {e : RouteEngine} {done : Done}
    (h : handleTask conf env task e = some done) : Dispatched conf env task e done := by
  unfold handleTask at h
  by_cases h₁ : task.type = taskRreq
  · rw [if_pos h₁] at h
    split at h
    · rename_i request hdata
      exact .request request h₁ hdata h
    · cases h
  by_cases h₂ : task.type = taskRrep
  · rw [if_neg h₁, if_pos h₂] at h
    split at h
    · rename_i reply hdata
      exact .reply reply h₂ hdata h
    · cases h
  rw [if_neg h₁, if_neg h₂] at h
  by_cases h₃ : task.type = taskRrepAck
  · rw [if_pos h₃] at h
    obtain rfl := Option.some.inj h
    exact .nothing rfl rfl
  by_cases h₄ : task.type = taskRerr
  · rw [if_neg h₃, if_pos h₄] at h
    split at h
    · rename_i errpdu hdata
      exact .error errpdu h₄ hdata h
    · cases h
  rw [if_neg h₃, if_neg h₄] at h
  by_cases h₅ : task.type = taskCleanup
  · rw [if_pos h₅] at h
    obtain rfl := Option.some.inj h
    exact .cleanup h₅ rfl rfl
  by_cases h₆ : task.type = taskHello
  · rw [if_neg h₅, if_pos h₆] at h
    exact .hello h₆ h
  rw [if_neg h₅, if_neg h₆] at h
  by_cases h₇ : task.type = taskNeighbor
  · rw [if_pos h₇] at h
    exact .neighbor h₇ h
  by_cases h₈ : task.type = taskRouteCleanup
  · rw [if_neg h₇, if_pos h₈] at h
    obtain rfl := Option.some.inj h
    exact .routeCleanup h₈ rfl rfl
  rw [if_neg h₇, if_neg h₈] at h
  by_cases h₉ : task.type = taskResendRreq
  · rw [if_pos h₉] at h
    exact .resend h₉ (Option.some.inj h).symm
  · rw [if_neg h₉] at h
    obtain rfl := Option.some.inj h
    exact .nothing rfl rfl

/-- An outgoing packet is let through, with its route refreshed, or starts a
request. -/
theorem ipPacketOutput_cases (conf : EngineConf) (env : Env) (daddr : U32) (e : RouteEngine) :
    ∃ t, AgedTable env e.routes t ∧
      ((∃ p, (ipPacketOutput conf env daddr e).2 = ⟨0, { e with routes := t.modify p fun r =>
          { r with lifetime := env.now + activeRouteTimeout } }, []⟩) ∨
        (ipPacketOutput conf env daddr e).2 = ⟨0, { e with routes := t }, []⟩ ∨
        ((∀ p r, firstRoute t daddr = some (p, r) → r.routeValid = false) ∧
          (ipPacketOutput conf env daddr e).2 =
            sendRequest conf env daddr { e with routes := t })) := by
  unfold ipPacketOutput
  split_ifs
  · exact ⟨e.routes, .refl _, .inr (.inl rfl)⟩
  · exact ⟨e.routes, .refl _, .inr (.inl rfl)⟩
  · have ha := routeFind_aged env daddr e.routes
    have hent := firstRoute_routeFind env daddr e.routes
    rw [← routeFind_found] at hent
    generalize routeFind env daddr e.routes = res at ha hent
    obtain ⟨t, found⟩ := res
    refine ⟨t, ha, ?_⟩
    simp only at hent
    cases found with
    | none => exact .inr (.inr ⟨fun p r hr => by simp [hent] at hr, rfl⟩)
    | some c =>
        obtain ⟨p, r⟩ := c
        by_cases hv : r.routeValid = true
        · by_cases hself : r.selfRoute = true
          · exact .inr (.inl (by simp [hv, hself]))
          · exact .inl ⟨p, by simp [hv, hself]⟩
        · refine .inr (.inr ⟨fun p' r' hr' => ?_, by simp [hv]⟩)
          obtain ⟨rfl, rfl⟩ : p = p' ∧ r = r' := by simpa [hent] using hr'
          simpa using hv

end Maodv
end WirelessMesh
