import WirelessMesh.Maodv.HandlerCases

/-!
# Self routes and received messages

A node's own addresses sit in the route table next to the learned ones and are
looked up by address only. The destination rule may raise the number of a self
route; nothing else should touch it. The update path and the HELLO path do not
look at the flag, so this holds of messages that do not reach a self route there.
-/

namespace WirelessMesh
namespace Maodv

open Routes

variable {conf : EngineConf} {env : Env}

structure Keeps (r r' : MeshRoute) : Prop where
  ip : r'.ip = r.ip
  selfRoute : r'.selfRoute = r.selfRoute
  routeValid : r'.routeValid = r.routeValid
  nextHop : r'.nextHop = r.nextHop
  metric : r'.metric = r.metric

theorem Keeps.refl (r : MeshRoute) : Keeps r r := ⟨rfl, rfl, rfl, rfl, rfl⟩

theorem Keeps.trans {r r' r'' : MeshRoute} (h : Keeps r r') (h' : Keeps r' r'') : Keeps r r'' where
  ip := h'.ip.trans h.ip
  selfRoute := h'.selfRoute.trans h.selfRoute
  routeValid := h'.routeValid.trans h.routeValid
  nextHop := h'.nextHop.trans h.nextHop
  metric := h'.metric.trans h.metric

theorem routeRefresh_keeps {r : MeshRoute} (h : r.routeValid = true) :
    Keeps r (routeRefresh env r) := by
  constructor <;> simp only [routeRefresh, h]

/-- Every self route of `t` is still linked in `t'` and kept, but for numbers that
`rule` allows for its address. -/
def SelfKept (rule : U32 → U32 → Prop) (t t' : RouteTable) : Prop :=
  ∀ p r, (p, r) ∈ t.cells → r.selfRoute = true →
    ∃ r', (p, r') ∈ t'.cells ∧ Keeps r r' ∧ (r'.seq = r.seq ∨ rule r.ip r'.seq)

namespace SelfKept

variable {rule rule' : U32 → U32 → Prop} {t₀ t t' : RouteTable}

theorem refl (t : RouteTable) : SelfKept rule t t :=
  fun _ r hr _ => ⟨r, hr, .refl r, .inl rfl⟩

theorem trans (h : SelfKept rule t₀ t) (h' : SelfKept rule t t') : SelfKept rule t₀ t' := by
  intro p r₀ hr₀ hs
  obtain ⟨r, hr, hk, hseq⟩ := h p r₀ hr₀ hs
  obtain ⟨r', hr', hk', hseq'⟩ := h' p r hr (hk.selfRoute.trans hs)
  refine ⟨r', hr', hk.trans hk', ?_⟩
  rcases hseq' with hseq' | hseq'
  · rwa [hseq']
  · exact .inr (hk.ip ▸ hseq')

theorem mono (h : SelfKept rule t t') (hle : ∀ ip seq, rule ip seq → rule' ip seq) :
    SelfKept rule' t t' := by
  intro p r hr hs
  obtain ⟨r', hr', hk, hseq⟩ := h p r hr hs
  exact ⟨r', hr', hk, hseq.imp_right (hle _ _)⟩

theorem aged (h : SelfKept rule t₀ t) (ha : AgedTable env t t') : SelfKept rule t₀ t' := by
  intro p r₀ hr₀ hs
  obtain ⟨r, hr, hk, hseq⟩ := h p r₀ hr₀ hs
  obtain ⟨r', hr', hrr⟩ := ha.mem_right hr
  obtain rfl := hrr.worn.eq_of_self (hk.selfRoute.trans hs)
  exact ⟨r', hr', hk, hseq⟩

theorem push (h : SelfKept rule t₀ t) (r : MeshRoute) : SelfKept rule t₀ (t.push r) := by
  intro p r₀ hr₀ hs
  obtain ⟨r', hr', hrest⟩ := h p r₀ hr₀ hs
  exact ⟨r', List.mem_cons_of_mem _ hr', hrest⟩

theorem modify (h : SelfKept rule t₀ t) {q : ℕ} {f : MeshRoute → MeshRoute}
    (hf : ∀ r, (q, r) ∈ t.cells → r.selfRoute = true →
      Keeps r (f r) ∧ ((f r).seq = r.seq ∨ rule r.ip (f r).seq)) :
    SelfKept rule t₀ (t.modify q f) := by
  refine h.trans fun p r hr hs => ?_
  by_cases hpq : p = q
  · subst hpq
    exact ⟨f r, HeapList.mem_modify_self hr, hf r hr hs⟩
  · exact ⟨r, HeapList.mem_modify.mpr ⟨r, hr, by simp [hpq]⟩, .refl r, .inl rfl⟩

theorem updated {neighs : HeapList RouteNeigh} {ip hop : U32} {metric : U8} {seq : U32}
    (h : SelfKept rule t₀ t) (hup : Updated conf env neighs ip hop metric seq t t')
    (hsafe : ∀ p r, firstRoute t ip = some (p, r) → r.selfRoute = true →
      seqGreater r.seq seq = true) : SelfKept rule t₀ t' := by
  cases hup with
  | unheard | refused | noMemory => exact h
  | installed => exact h.push _
  | @accepted p r hn hf hs =>
      refine h.modify fun r' hr' hself => ?_
      obtain rfl := HeapList.eq_of_mem hr' (firstRoute_mem hf)
      simp [hsafe p r' hf hself] at hs

/-- Answering keeps them, by the destination rule, if a gateway does not answer
with a self route that has become invalid. -/
theorem answered {myRoute : ℕ} {request : AodvPduRequest} {b : Bool} (h : SelfKept rule t₀ t)
    (ha : Answered conf env myRoute request t t' b)
    (hrule : ∀ ip seq, ip = request.dstIp → seq = request.dstSeq + 1 → rule ip seq)
    (hsafe : conf.checkSubnet request.dstIp = false → conf.supportGateway = true →
      ∀ p r, firstRoute t request.dstIp = some (p, r) → r.selfRoute = true → r.routeValid = true) :
    SelfKept rule t₀ t' := by
  cases ha with
  | silent | stands => exact h
  | gatewayed | shadowed => exact h.push _
  | @refreshed p r hout hg hf =>
      refine h.modify fun r' hr' hself => ?_
      obtain rfl := HeapList.eq_of_mem hr' (firstRoute_mem hf)
      exact ⟨routeRefresh_keeps (hsafe hout hg p r' hf hself), .inl (by simp only [routeRefresh])⟩
  | @raised p r hf hself hs =>
      refine h.modify fun r' hr' _ => ⟨⟨rfl, rfl, rfl, rfl, rfl⟩, .inr (hrule _ _ ?_ rfl)⟩
      obtain rfl := HeapList.eq_of_mem hr' (firstRoute_mem hf)
      exact firstRoute_ip hf

end SelfKept

/-- The first entry for an address, if it is a self route, is the one from before
the update. -/
theorem Updated.firstRoute_self {neighs : HeapList RouteNeigh} {ip hop d : U32} {metric : U8}
    {seq : U32} {t t' : RouteTable} (hup : Updated conf env neighs ip hop metric seq t t')
    (hsafe : ∀ p r, firstRoute t ip = some (p, r) → r.selfRoute = true →
      seqGreater r.seq seq = true)
    {p : ℕ} {r : MeshRoute} (h : firstRoute t' d = some (p, r)) (hself : r.selfRoute = true) :
    firstRoute t d = some (p, r) := by
  cases hup with
  | unheard | refused | noMemory => exact h
  | installed =>
      rw [firstRoute_push] at h
      split_ifs at h with hd
      · obtain ⟨-, rfl⟩ := Prod.mk.inj (Option.some.inj h)
        simp [routeAccept, routeNew] at hself
      · exact h
  | @accepted q r₁ hn hf hs =>
      rw [firstRoute_modify t q (routeAccept env hop metric seq) (fun _ => rfl)] at h
      obtain ⟨⟨p', r'⟩, hr', heq⟩ := Option.map_eq_some_iff.mp h
      obtain ⟨rfl, rfl⟩ := Prod.mk.inj heq
      by_cases hpq : p' = q
      · subst hpq
        obtain rfl := HeapList.eq_of_mem (firstRoute_mem hr') (firstRoute_mem hf)
        simp only [if_true] at hself
        simp [hsafe p' r' hf hself] at hs
      · simpa [hpq] using hr'

theorem AgedTable.firstRoute_self {t t' : RouteTable} (ha : AgedTable env t t') {d : U32} {p : ℕ}
    {r : MeshRoute} (h : firstRoute t' d = some (p, r)) (hself : r.selfRoute = true) :
    firstRoute t d = some (p, r) := by
  obtain ⟨-, hnone⟩ | ⟨p', r₀, r', hr₀, hr', hw⟩ := ha.worn.firstRoute_eq d
  · simp [hnone] at h
  · obtain ⟨rfl, rfl⟩ : p' = p ∧ r' = r := by simpa [hr'] using h
    rw [hr₀, hw.eq_of_self (hw.selfRoute.symm.trans hself)]

/-! ## Messages -/

def Received (task : RouteTask) : Prop :=
  task.type = taskRreq ∨ task.type = taskRrep ∨ task.type = taskRerr

/-- The message is not taken for news about a self route, and a gateway is not
asked for an address of its own whose route has become invalid. -/
def SelfSafe (conf : EngineConf) (env : Env) (task : RouteTask) (e : RouteEngine) : Prop :=
  match task.data with
  | .request request => RequestPasses env task request e →
      (∀ p r, firstRoute e.routes request.srcIp = some (p, r) → r.selfRoute = true →
        seqGreater r.seq request.srcSeq = true) ∧
      (conf.checkSubnet request.dstIp = false → conf.supportGateway = true →
        ∀ p r, firstRoute e.routes request.dstIp = some (p, r) → r.selfRoute = true →
          r.routeValid = true)
  | .reply reply =>
      if reply.srcIp = reply.dstIp then
        neighFind reply.dstIp e.neighs ≠ none ∨ env.mem .neigh = true →
          ∀ p r, firstRoute e.routes reply.dstIp = some (p, r) → r.selfRoute = false
      else neighValid env task.srcIp e.neighs = true →
        ∀ p r, firstRoute e.routes reply.dstIp = some (p, r) → r.selfRoute = true →
          seqGreater r.seq reply.dstSeq = true
  | _ => True

/-- `__request_should_be_reply` on behalf of the destination. -/
def DestinationRule (task : RouteTask) (ip seq : U32) : Prop :=
  ∃ request, task.data = .request request ∧ request.dstIp = ip ∧ seq = request.dstSeq + 1

theorem rxRequest_selfKept {packet : RouteTask} {request : AodvPduRequest} {e : RouteEngine}
    {done : Done} (hdata : packet.data = .request request)
    (h : rxRequest conf env packet request e = some done) (hsafe : SelfSafe conf env packet e) :
    SelfKept (DestinationRule packet) e.routes done.engine.routes := by
  obtain ⟨-, -, t, ha, heq, -⟩ | ⟨t₁, t₂, t₃, t₄, b, tr⟩ := rxRequest_cases h
  · rw [heq]
    exact (SelfKept.refl _).aged ha
  · simp only [SelfSafe, hdata] at hsafe
    obtain ⟨hsrc, hdst⟩ := hsafe tr.passes
    have hsrc₁ : ∀ p r, firstRoute t₁ request.srcIp = some (p, r) → r.selfRoute = true →
        seqGreater r.seq request.srcSeq = true :=
      fun p r hr hself => hsrc p r (tr.aged.firstRoute_self hr hself) hself
    have h₃ : SelfKept (DestinationRule packet) e.routes t₃ :=
      (((SelfKept.refl _).aged tr.aged).updated tr.updated hsrc₁).aged tr.aged'
    refine (h₃.answered tr.answer ?_ ?_).aged tr.aged''
    · rintro ip seq rfl rfl
      exact ⟨request, hdata, rfl, rfl⟩
    · intro hout hg p r hr hself
      have hr₁ := tr.updated.firstRoute_self hsrc₁ (tr.aged'.firstRoute_self hr hself) hself
      exact hdst hout hg p r (tr.aged.firstRoute_self hr₁ hself) hself

theorem rxReply_selfKept {packet : RouteTask} {reply : AodvPduReply} {e : RouteEngine}
    {done : Done} (hdata : packet.data = .reply reply)
    (h : rxReply conf env packet reply e = some done) (hsafe : SelfSafe conf env packet e) :
    SelfKept (DestinationRule packet) e.routes done.engine.routes := by
  simp only [SelfSafe, hdata] at hsafe
  obtain ⟨hsame, d, hd, rfl⟩ | ⟨-, -, rfl⟩ | ⟨t₁, t₂, tr⟩ := rxReply_cases h
  · simp only [hsame, if_true] at hsafe
    obtain ⟨-, -, rfl⟩ | ⟨t, dev, tr⟩ := rxHello_cases hd
    · exact .refl _
    · have hage : SelfKept (DestinationRule packet) e.routes t := (SelfKept.refl _).aged tr.aged
      change SelfKept _ _ d.engine.routes
      rw [tr.routes]
      cases hent : firstRoute t reply.dstIp with
      | none => exact hage.push _
      | some c =>
          obtain ⟨p, r⟩ := c
          refine hage.modify fun r' hr' hself => ?_
          obtain rfl := HeapList.eq_of_mem hr' (firstRoute_mem hent)
          have := hsafe tr.recorded p r' (tr.aged.firstRoute_self hent hself)
          simp [this] at hself
  · exact .refl _
  · simp only [tr.notHello, if_false] at hsafe
    refine (((SelfKept.refl _).aged tr.aged).updated tr.updated ?_).aged tr.aged'
    exact fun p r hr hself => hsafe tr.heard p r (tr.aged.firstRoute_self hr hself) hself

theorem rxError_selfKept {packet : RouteTask} {errpdu : AodvPduError} {e : RouteEngine}
    {done : Done} {rule : U32 → U32 → Prop} (h : rxError env packet errpdu e = some done) :
    SelfKept rule e.routes done.engine.routes := by
  obtain ⟨t', rfl, hloop⟩ := rxError_cases h
  obtain ⟨-, ha⟩ | ⟨errDest, p, r, t, -, hr, hlearned, ha, rfl⟩ :=
    rxErrorLoop_cases (.refl _) hloop
  · exact (SelfKept.refl _).aged ha
  · refine ((SelfKept.refl _).aged ha).modify fun r' hr' hself => ?_
    obtain ⟨r'', hr'', hrr⟩ := ha.mem_right hr
    obtain rfl := HeapList.eq_of_mem hr' hr''
    simp [hrr.worn.selfRoute, hlearned] at hself

theorem handleTask_selfKept {task : RouteTask} {e : RouteEngine} {done : Done}
    (hty : Received task) (h : handleTask conf env task e = some done)
    (hsafe : SelfSafe conf env task e) :
    SelfKept (DestinationRule task) e.routes done.engine.routes := by
  rcases hty with hty | hty | hty
  · cases hdata : task.data <;> simp [handleTask, hty, hdata] at h
    exact rxRequest_selfKept hdata h hsafe
  · cases hdata : task.data <;> simp [handleTask, hty, hdata, taskRreq, taskRrep] at h
    exact rxReply_selfKept hdata h hsafe
  · cases hdata : task.data <;>
      simp [handleTask, hty, hdata, taskRreq, taskRrep, taskRrepAck, taskRerr] at h
    exact rxError_selfKept h

def SafeTask (conf : EngineConf) (task : Env × RouteTask) (e : RouteEngine) : Prop :=
  Received task.2 ∧ SelfSafe conf task.1 task.2 e

/-- Over any run of safe messages every self route keeps its flag, its validity,
its next hop and its metric, and its number is its old one or the one after a
number some RREQ of the run asked its address for. -/
theorem selfRoutes_kept {tasks : List (Env × RouteTask)} {e e' : RouteEngine}
    (hsafe : Machine.Throughout (taskStep conf) (SafeTask conf) tasks e)
    (h : Machine.finish (taskStep conf) tasks e = some e') :
    SelfKept (fun ip seq => ∃ task ∈ tasks, DestinationRule task.2 ip seq) e.routes e'.routes := by
  induction tasks generalizing e with
  | nil =>
      obtain rfl := Option.some.inj h
      exact .refl _
  | cons step rest ih =>
      obtain ⟨e₁, he₁, h⟩ := Option.bind_eq_some_iff.mp h
      obtain ⟨⟨hty, hs⟩, hrest⟩ := hsafe e₁ he₁
      obtain ⟨done, hdone, rfl⟩ := Option.map_eq_some_iff.mp he₁
      have hstep := handleTask_selfKept hty hdone hs
      refine (hstep.mono fun ip seq hr => ⟨step, by simp, hr⟩).trans ?_
      refine (ih hrest h).mono ?_
      rintro ip seq ⟨task', htask', hr⟩
      exact ⟨task', by simp [htask'], hr⟩

/-- A neighbour says HELLO and then passes on a RREQ that claims to come from the
node itself. -/
def echoedRequest : List (Env × RouteTask) :=
  [(.plenty 100, lanTask 100 (lanDev 0x0a000001) 0x0a000002 (.reply (helloPdu 0x0a000002 1))),
   (.plenty 200, lanTask 200 (lanDev 0x0a000001) 0x0a000002
      (.request (requestPdu 0x0a000001 100 7 0x0a000009 0)))]

/-- The RREQ points the node's own route at the neighbour. -/
theorem selfRoute_overwritten : (∀ task ∈ echoedRequest, Received task.2) ∧
    ∃ e', Machine.finish (taskStep (lanNode true 0x0a000001).1) echoedRequest
        (lanNode true 0x0a000001).2 = some e' ∧
      ¬SelfKept (fun ip seq => ∃ task ∈ echoedRequest, DestinationRule task.2 ip seq)
        (lanNode true 0x0a000001).2.routes e'.routes := by
  refine ⟨?_, _, rfl, fun h => ?_⟩
  · simp [echoedRequest, Received, lanTask, ipTask, pduType]
  · obtain ⟨r', hr', hk, -⟩ := h 1 _ (HeapList.get?_eq_some.mp rfl) rfl
    obtain rfl := HeapList.eq_of_mem hr' (HeapList.get?_eq_some.mp rfl)
    exact absurd hk.nextHop (by decide)

def askedForSelf : List (Env × RouteTask) :=
  [(.plenty 100, lanTask 100 (lanDev 0x0a000001) 0x0a000002 (.reply (helloPdu 0x0a000002 1))),
   (.plenty 200, lanTask 200 (lanDev 0x0a000001) 0x0a000002
      (.request (requestPdu 0x0a000002 2 2 0x0a000001 5)))]

theorem selfRoutes_kept_askedForSelf : ∃ e',
    Machine.finish (taskStep (lanNode true 0x0a000001).1) askedForSelf
        (lanNode true 0x0a000001).2 = some e' ∧
      SelfKept (fun ip seq => ∃ task ∈ askedForSelf, DestinationRule task.2 ip seq)
        (lanNode true 0x0a000001).2.routes e'.routes := by
  have hsafe : Machine.Throughout (taskStep (lanNode true 0x0a000001).1)
      (SafeTask (lanNode true 0x0a000001).1) askedForSelf (lanNode true 0x0a000001).2 := by
    have hnone : firstRoute (lanNode true 0x0a000001).2.routes 0x0a000002 = none := by decide
    intro e₁ he₁
    refine ⟨⟨.inr (.inl rfl), fun _ p r hr => ?_⟩, ?_⟩
    · cases hnone.symm.trans hr
    obtain rfl := Option.some.inj he₁
    intro e₂ _
    refine ⟨⟨.inl rfl, fun _ => ⟨fun p r hr hself => ?_, fun hout => ?_⟩⟩, trivial⟩
    · obtain ⟨rfl, rfl⟩ := Prod.mk.inj (Option.some.inj hr)
      exact absurd hself (by decide)
    · exact absurd hout (by decide)
  exact ⟨_, rfl, selfRoutes_kept hsafe rfl⟩

end Maodv
end WirelessMesh
