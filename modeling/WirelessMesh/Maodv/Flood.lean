import WirelessMesh.Maodv.HandlerCases

/-!
# Suppression of duplicate RREQs

A flood record is linked when a RREQ is worked on and keeps copies of it out for
`PATH_DISCOVERY_TIME`. The lookup stops at the first expired record, and the
insertion leaves a record of the same request alone even if it has expired. So a
copy is kept out if the first one found no record of its request linked.
-/

namespace WirelessMesh
namespace Maodv

open Routes SerialOrder

/-- An event at a time counted without wrapping; the code sees its low word. -/
structure Occurrence where
  time : ℕ
  mem : AllocSite → Bool
  stale : Stale
  event : EngineEvent

def Occurrence.env (o : Occurrence) : Env := ⟨BitVec.ofNat 32 o.time, o.mem, o.stale⟩

def occur (conf : EngineConf) (o : Occurrence) (e : RouteEngine) : Option RouteEngine :=
  (handleEvent conf o.env e o.event).map Done.engine

variable {conf : EngineConf} {env : Env}

/-! ## Every event takes one flood step -/

theorem handleEvent_floods {event : EngineEvent} {e : RouteEngine} {done : Done}
    (h : handleEvent conf env e event = some done) :
    FloodStep env e.floods done.engine.floods := by
  cases event with
  | output daddr =>
      obtain rfl := Option.some.inj h
      obtain ⟨t, -, ⟨p, heq⟩ | heq | ⟨-, heq⟩⟩ :=
        ipPacketOutput_cases conf env daddr e
      · rw [heq]; exact .same
      · rw [heq]; exact .same
      · rw [heq]
        obtain ⟨heq', -⟩ | ⟨t', tr⟩ :=
          sendRequest_cases conf env daddr { e with routes := t }
        · rw [heq']; exact .same
        · exact tr.floods
  | task task =>
      cases handleTask_cases h with
      | request request hty hdata h =>
          obtain ⟨-, -, t, -, heq, -⟩ | ⟨t₁, t₂, t₃, t₄, b, tr⟩ := rxRequest_cases h
          · rw [heq]; exact .same
          · rw [tr.engine]; exact floodInsert_step _ _ _ _
      | reply reply hty hdata h =>
          obtain ⟨-, d, hd, rfl⟩ | ⟨-, -, rfl⟩ | ⟨t₁, t₂, tr⟩ := rxReply_cases h
          · obtain ⟨-, -, rfl⟩ | ⟨t, dev, tr⟩ := rxHello_cases hd
            · exact .same
            · change FloodStep env e.floods d.engine.floods
              rw [tr.floods]; exact .same
          · exact .same
          · rw [tr.engine]; exact .same
      | error errpdu hty hdata h =>
          obtain ⟨t, rfl, -⟩ := rxError_cases h
          exact .same
      | cleanup hty h hsent => rw [h]; exact .flushed
      | hello hty h =>
          obtain rfl | ⟨my, -, heq, -⟩ := sendHello_cases h
          · exact .same
          · rw [heq]; exact .same
      | neighbor hty h =>
          obtain rfl | ⟨t, tr⟩ := neighDelete_cases h
          · exact .same
          · rw [tr.floods]; exact .same
      | routeCleanup hty h hsent => rw [h]; exact .same
      | resend hty h =>
          subst h
          obtain ⟨heq, -⟩ | ⟨t, tr⟩ := resendRequest_cases conf env task e
          · rw [heq]; exact .same
          · exact tr.floods
      | nothing h hsent => rw [h]; exact .same

/-! ## A record in its time -/

def floodDeadline (time : ℕ) : U32 := BitVec.ofNat 32 (time + 1600)

theorem deadline_eq (o : Occurrence) : o.env.now + pathDiscoveryTime = floodDeadline o.time := by
  simp only [Occurrence.env, floodDeadline, BitVec.ofNat_add]
  rfl

theorem deadline_ahead {made now : ℕ} (h : now < made + 1600) (h' : made ≤ now + 1600) :
    timeBefore (floodDeadline made) (BitVec.ofNat 32 now) = false := by
  rw [timeBefore_eq_false, floodDeadline, ahead_ofNat (by omega) (by omega)]
  omega

/-- The record of `(srcIp, id)` made at `t₁` is linked, behind records made since. -/
def Live (srcIp id : U32) (t₁ now : ℕ) (floods : List RouteFlood) : Prop :=
  ∃ newer flood older, floods = newer ++ flood :: older ∧
    flood.srcIp = srcIp ∧ flood.id = id ∧ flood.lifetime = floodDeadline t₁ ∧
    ∀ f ∈ newer, ∃ made, t₁ ≤ made ∧ made ≤ now ∧ f.lifetime = floodDeadline made

namespace Live

variable {srcIp id : U32} {t₁ now : ℕ} {floods floods' : List RouteFlood}

theorem found (h : Live srcIp id t₁ now floods) {o : Occurrence} (ht : t₁ ≤ now)
    (hnow : now ≤ o.time) (ho : o.time < t₁ + 1600) :
    (floodFind o.env srcIp id floods).isSome = true := by
  obtain ⟨newer, flood, older, rfl, rfl, rfl, hlife, hnewer⟩ := h
  have halive : timeBefore flood.lifetime o.env.now = false := by
    rw [hlife]
    exact deadline_ahead ho (by omega)
  induction newer with
  | nil => simp [floodFind, halive]
  | cons f fs ih =>
      obtain ⟨made, h₁, h₂, hf⟩ := hnewer f (by simp)
      have hf' : timeBefore f.lifetime o.env.now = false := by
        rw [hf]
        exact deadline_ahead (by omega) (by omega)
      simp only [List.cons_append, floodFind, hf', Bool.false_eq_true, if_false]
      split_ifs
      · rfl
      · exact ih fun g hg => hnewer g (by simp [hg])

theorem step (h : Live srcIp id t₁ now floods) {o : Occurrence} (hnow : now ≤ o.time)
    (ht : t₁ ≤ o.time) (ho : o.time < t₁ + 1600) (hs : FloodStep o.env floods floods') :
    Live srcIp id t₁ o.time floods' := by
  obtain ⟨newer, flood, older, rfl, hsrc, hid, hlife, hnewer⟩ := h
  have hlater : ∀ f ∈ newer, ∃ made, t₁ ≤ made ∧ made ≤ o.time ∧
      f.lifetime = floodDeadline made := by
    intro f hf
    obtain ⟨made, h₁, h₂, h₃⟩ := hnewer f hf
    exact ⟨made, h₁, h₂.trans hnow, h₃⟩
  cases hs with
  | same => exact ⟨newer, flood, older, rfl, hsrc, hid, hlife, hlater⟩
  | @pushed f hf =>
      refine ⟨f :: newer, flood, older, rfl, hsrc, hid, hlife, ?_⟩
      intro g hg
      rcases List.mem_cons.mp hg with rfl | hg
      · exact ⟨o.time, ht, le_rfl, hf.trans (deadline_eq o)⟩
      · exact hlater g hg
  | flushed =>
      have halive : timeBefore flood.lifetime o.env.now = false := by
        rw [hlife]
        exact deadline_ahead ho (by omega)
      refine ⟨newer.filter fun f => !timeBefore f.lifetime o.env.now, flood,
        older.filter fun f => !timeBefore f.lifetime o.env.now, ?_, hsrc, hid, hlife, ?_⟩
      · simp only [List.filter_append, List.filter_cons, halive, Bool.not_false, if_true]
      · exact fun f hf => hlater f (List.mem_of_mem_filter hf)

theorem run {os : List Occurrence} {e e' : RouteEngine}
    (h : Live srcIp id t₁ now e.floods) (hr : Machine.finish (occur conf) os e = some e')
    (hsorted : (os.map Occurrence.time).Pairwise (· ≤ ·))
    (hfrom : ∀ o ∈ os, now ≤ o.time) (ht : t₁ ≤ now) {last : ℕ} (hlast : last < t₁ + 1600)
    (hto : ∀ o ∈ os, o.time ≤ last) (hnow : now ≤ last) :
    ∃ now', now' ≤ last ∧ t₁ ≤ now' ∧ Live srcIp id t₁ now' e'.floods := by
  induction os generalizing e now with
  | nil =>
      obtain rfl := Option.some.inj hr
      exact ⟨now, hnow, ht, h⟩
  | cons o os ih =>
      obtain ⟨e₁, he₁, hr⟩ := Option.bind_eq_some_iff.mp hr
      obtain ⟨done, hdone, rfl⟩ := Option.map_eq_some_iff.mp he₁
      have ho := hfrom o (by simp)
      have ho' := hto o (by simp)
      have hlive := h.step ho (ht.trans ho) (by omega) (handleEvent_floods hdone)
      rw [List.map_cons, List.pairwise_cons] at hsorted
      refine ih hlive hr hsorted.2 ?_ (ht.trans ho) (fun o' h' => hto o' (by simp [h'])) ho'
      exact fun o' h' => hsorted.1 o'.time (List.mem_map_of_mem h')

end Live

/-! ## Two copies of one RREQ -/

structure IsRequest (o : Occurrence) (packet : RouteTask) (request : AodvPduRequest) : Prop where
  event : o.event = .task packet
  type : packet.type = taskRreq
  data : packet.data = .request request

/-- No record of the request is linked, expired or not, and one can be allocated. -/
def FreshFlood (env : Env) (request : AodvPduRequest) (e : RouteEngine) : Prop :=
  (∀ f ∈ e.floods, ¬(f.srcIp = request.srcIp ∧ f.id = request.rreqId)) ∧ env.mem .flood = true

theorem IsRequest.rxRequest {o : Occurrence} {packet : RouteTask} {request : AodvPduRequest}
    (h : IsRequest o packet request) {e : RouteEngine} {done : Done}
    (hd : handleEvent conf o.env e o.event = some done) :
    rxRequest conf o.env packet request e = some done := by
  simpa [h.event, handleEvent, handleTask, h.type, h.data] using hd

theorem live_of_worked {o : Occurrence} {packet : RouteTask} {request : AodvPduRequest}
    {e : RouteEngine} {done : Done} (hd : rxRequest conf o.env packet request e = some done)
    (hfresh : FreshFlood o.env request e) (hret : done.ret = 0) :
    Live request.srcIp request.rreqId o.time o.time done.engine.floods := by
  obtain ⟨-, hret', -⟩ | ⟨t₁, t₂, t₃, t₄, b, tr⟩ := rxRequest_cases hd
  · exact absurd hret hret'
  · have hnew : (floodInsert o.env request.srcIp request.dstIp request.rreqId
        (o.env.now + pathDiscoveryTime) e.floods).1 =
        ⟨request.srcIp, request.dstIp, request.rreqId, o.env.now + pathDiscoveryTime⟩ ::
          e.floods := by
      have hnone : (e.floods.any fun f => f.srcIp == request.srcIp && f.id == request.rreqId) =
          false := by
        rw [List.any_eq_false]
        intro f hf hkey
        simp only [Bool.and_eq_true, beq_iff_eq] at hkey
        exact hfresh.1 f hf hkey
      simp [floodInsert, hnone, hfresh.2]
    rw [tr.engine]
    exact ⟨[], _, e.floods, hnew, rfl, rfl, deadline_eq o, by simp⟩

/-- From any state, over any events in between: a second copy of a RREQ within
`PATH_DISCOVERY_TIME` of one that was worked on is dropped, provided the first
copy found no record of the request linked and could make one. -/
theorem duplicate_suppressed {o₁ o₂ : Occurrence} {mid : List Occurrence}
    {packet₁ packet₂ : RouteTask} {request₁ request₂ : AodvPduRequest} {e₁ e₂ : RouteEngine}
    {done₁ done₂ : Done} (h₁ : IsRequest o₁ packet₁ request₁) (h₂ : IsRequest o₂ packet₂ request₂)
    (hkey : request₂.srcIp = request₁.srcIp ∧ request₂.rreqId = request₁.rreqId)
    (hsorted : ((o₁ :: (mid ++ [o₂])).map Occurrence.time).Pairwise (· ≤ ·))
    (hwithin : o₂.time < o₁.time + pathDiscoveryTime.toNat)
    (hfresh : FreshFlood o₁.env request₁ e₁)
    (hd₁ : handleEvent conf o₁.env e₁ o₁.event = some done₁) (hworked : done₁.ret = 0)
    (hmid : Machine.finish (occur conf) mid done₁.engine = some e₂)
    (hd₂ : handleEvent conf o₂.env e₂ o₂.event = some done₂) :
    done₂.ret ≠ 0 ∧ done₂.sent = [] := by
  have hwithin' : o₂.time < o₁.time + 1600 := hwithin
  have hlive := live_of_worked (h₁.rxRequest hd₁) hfresh hworked
  rw [List.map_cons, List.pairwise_cons, List.map_append, List.pairwise_append] at hsorted
  obtain ⟨hfirst, hmids, -, hlast⟩ := hsorted
  have h₁₂ : o₁.time ≤ o₂.time := hfirst o₂.time (by simp)
  obtain ⟨now, hnow, ht, hlive⟩ := hlive.run hmid hmids
    (fun o ho => hfirst o.time (List.mem_append_left _ (List.mem_map_of_mem ho))) le_rfl hwithin'
    (fun o ho => hlast o.time (List.mem_map_of_mem ho) o₂.time (by simp)) h₁₂
  have hfound := hlive.found ht hnow hwithin'
  obtain ⟨-, hret, t, -, -, hsent⟩ | ⟨t₁, t₂, t₃, t₄, b, tr⟩ := rxRequest_cases (h₂.rxRequest hd₂)
  · exact ⟨hret, hsent⟩
  · have hunknown := tr.passes.2.1
    rw [hkey.1, hkey.2] at hunknown
    simp [hunknown] at hfound

def requestAt (time : ℕ) : Occurrence where
  time := time
  mem := fun _ => true
  stale := ⟨0, 0, false, 0, 0⟩
  event := .task (lanTask (BitVec.ofNat 32 time) (lanDev 0x0a000001) 0x0a000002
    (.request (requestPdu 0x0a000002 2 2 0x0a000009 0)))

def helloAt (time : ℕ) : Occurrence :=
  { requestAt time with
    event := .task (lanTask (BitVec.ofNat 32 time) (lanDev 0x0a000001) 0x0a000002
      (.reply (helloPdu 0x0a000002 1))) }

/-- The copies at 1701 ms and 1702 ms are both rebroadcast: the record of the one
at 100 ms has expired and is still linked. -/
theorem duplicate_forwarded : ∃ e₁ done₁ done₂,
    Machine.finish (occur (lanNode true 0x0a000001).1) [helloAt 0, requestAt 100]
      (lanNode true 0x0a000001).2 = some e₁ ∧
    handleEvent (lanNode true 0x0a000001).1 (requestAt 1701).env e₁ (requestAt 1701).event =
      some done₁ ∧
    handleEvent (lanNode true 0x0a000001).1 (requestAt 1702).env done₁.engine
      (requestAt 1702).event = some done₂ ∧
    done₁.ret = 0 ∧ done₁.sent ≠ [] ∧ done₂.ret = 0 ∧ done₂.sent ≠ [] := by
  refine ⟨_, _, _, rfl, rfl, rfl, rfl, ?_, rfl, ?_⟩ <;> decide

/-- The copy at 200 ms meets the record of the one at 100 ms. -/
theorem duplicate_suppressed_fresh : ∃ e₁ done₁ done₂,
    Machine.finish (occur (lanNode true 0x0a000001).1) [helloAt 0]
      (lanNode true 0x0a000001).2 = some e₁ ∧
    handleEvent (lanNode true 0x0a000001).1 (requestAt 100).env e₁ (requestAt 100).event =
      some done₁ ∧
    handleEvent (lanNode true 0x0a000001).1 (requestAt 200).env done₁.engine
      (requestAt 200).event = some done₂ ∧
    done₂.ret ≠ 0 ∧ done₂.sent = [] := by
  have hfresh : ∀ e₁, Machine.finish (occur (lanNode true 0x0a000001).1) [helloAt 0]
      (lanNode true 0x0a000001).2 = some e₁ →
      FreshFlood (requestAt 100).env (requestPdu 0x0a000002 2 2 0x0a000009 0) e₁ := by
    intro e₁ he₁
    obtain rfl := Option.some.inj he₁
    exact ⟨by decide, rfl⟩
  refine ⟨_, _, _, rfl, rfl, rfl, ?_⟩
  have h₁ : IsRequest (requestAt 100) _ _ := ⟨rfl, rfl, rfl⟩
  have h₂ : IsRequest (requestAt 200) _ _ := ⟨rfl, rfl, rfl⟩
  have hnone : ∀ e, Machine.finish (occur (lanNode true 0x0a000001).1) [] e = some e :=
    fun _ => rfl
  exact duplicate_suppressed h₁ h₂ ⟨rfl, rfl⟩ (by decide) (by decide) (hfresh _ rfl) rfl rfl
    (hnone _) rfl

end Maodv
end WirelessMesh
