import WirelessMesh.Maodv.HandlerCases

/-!
# When a route is accepted, and when it is stale

AODV takes a route that is news: one with a newer sequence number, or one with the same number
that mends an invalid entry or is shorter. It must not use a route whose lifetime is over. The
lookup that precedes both decisions expires the entries it passes.
-/

namespace WirelessMesh
namespace Maodv

open Routes SerialOrder

variable {conf : EngineConf} {env : Env}

/-! ## Acceptance -/

/-- The route is news for the entry that the lookup found. -/
def IsNews (metric : U8) (seq : U32) : Option MeshRoute → Prop
  | none => True
  | some route =>
      0 < ahead seq route.seq ∨
        (seq = route.seq ∧ (route.routeValid = false ∨ metric < route.metric))

structure Accepted (env : Env) (hop : U32) (metric : U8) (seq : U32) (route : MeshRoute) :
    Prop where
  nextHop : route.nextHop = hop
  metric : route.metric = metric
  seq : route.seq = seq
  valid : route.routeValid = true
  lifetime : route.lifetime = env.now + activeRouteTimeout

structure FollowsRule (env : Env) (hop : U32) (metric : U8) (seq : U32)
    (stored after : Option MeshRoute) : Prop where
  news : IsNews metric seq stored → ∃ route, after = some route ∧ Accepted env hop metric seq route
  kept : ¬IsNews metric seq stored → after = stored

/-- Where the code decides by the rule: a new entry has memory, an equal number is no news,
and the two numbers are not just half the circle apart. -/
def DecidesByRule (env : Env) (metric : U8) (seq : U32) : Option MeshRoute → Prop
  | none => env.mem .route = true
  | some route =>
      (seq = route.seq → route.routeValid = true ∧ route.metric ≤ metric) ∧
        seq - route.seq ≠ 0x80000000

theorem ahead_neg_iff (a b : U32) : ahead a b < 0 ↔ 0 < ahead b a ∨ b - a = 0x80000000 := by
  simp only [ahead, BitVec.toInt_eq_toNat_cond]
  constructor
  · intro h
    split_ifs at h ⊢ <;> bv_omega
  · intro h
    split_ifs at h ⊢ <;> bv_omega

theorem accepted_routeAccept (hop : U32) (metric : U8) (seq : U32) (route : MeshRoute) :
    Accepted env hop metric seq (routeAccept env hop metric seq route) :=
  ⟨rfl, rfl, rfl, rfl, rfl⟩

theorem followsRule_refused_iff {hop : U32} {metric : U8} {seq : U32} {route : MeshRoute}
    (hs : seqGreater route.seq seq = true) :
    FollowsRule env hop metric seq (some route) (some route) ↔
      DecidesByRule env metric seq (some route) := by
  have hbehind : ¬(0 < ahead seq route.seq ∨ seq - route.seq = 0x80000000) := by
    rw [← ahead_neg_iff, ← seqGreater_eq_false, hs]
    simp
  rw [not_or] at hbehind
  constructor
  · intro h
    refine ⟨fun heq => ?_, hbehind.2⟩
    by_contra hnot
    have hnews : IsNews metric seq (some route) := by
      refine .inr ⟨heq, ?_⟩
      by_cases hvalid : route.routeValid = true
      · exact .inr (BitVec.not_le.mp fun hle => hnot ⟨hvalid, hle⟩)
      · exact .inl (by simpa using hvalid)
    obtain ⟨route', hafter, haccepted⟩ := h.news hnews
    obtain rfl := Option.some.inj hafter
    exact hnot ⟨haccepted.valid, haccepted.metric ▸ BitVec.le_refl _⟩
  · rintro ⟨hequal, -⟩
    refine ⟨fun hnews => ?_, fun _ => rfl⟩
    rcases hnews with hahead | ⟨heq, hinvalid | hlonger⟩
    · exact absurd hahead hbehind.1
    · simp [(hequal heq).1] at hinvalid
    · exact absurd hlonger (BitVec.not_lt.mpr (hequal heq).2)

theorem followsRule_accepted_iff {hop : U32} {metric : U8} {seq : U32} {route : MeshRoute}
    (hs : seqGreater route.seq seq = false) :
    FollowsRule env hop metric seq (some route)
        (some (routeAccept env hop metric seq route)) ↔
      DecidesByRule env metric seq (some route) := by
  have hne : seq ≠ route.seq := by
    rintro rfl
    simp [seqGreater_self] at hs
  have hahead := (ahead_neg_iff route.seq seq).mp (seqGreater_eq_false.mp hs)
  constructor
  · intro h
    refine ⟨fun heq => absurd heq hne, ?_⟩
    intro hhalf
    have hnot : ¬IsNews metric seq (some route) := by
      rintro (hpos | ⟨heq, -⟩)
      · have hneg : ahead seq route.seq < 0 := by
          rw [ahead, hhalf]
          decide
        omega
      · exact hne heq
    have hsame := congrArg (Option.map MeshRoute.seq) (h.kept hnot)
    exact hne (Option.some.inj hsame)
  · rintro ⟨-, hhalf⟩
    have hnews : IsNews metric seq (some route) := .inl (hahead.resolve_right hhalf)
    refine ⟨fun _ => ⟨_, rfl, accepted_routeAccept hop metric seq route⟩, ?_⟩
    exact fun hnot => absurd hnews hnot

/-- An update through a valid neighbour follows the rule, for the entry as the lookup leaves
it, exactly where the code decides by it. -/
theorem route_acceptance_iff (conf : EngineConf) (env : Env) (ip hop : U32) (metric : U8)
    (seq : U32) (e : RouteEngine) (hhop : neighValid env hop e.neighs = true) :
    FollowsRule env hop metric seq ((routeFind env ip e.routes).2.map Prod.snd)
        ((firstRoute (routeUpdate conf env ip hop metric seq e).1.routes ip).map Prod.snd) ↔
      DecidesByRule env metric seq ((routeFind env ip e.routes).2.map Prod.snd) := by
  obtain ⟨t, hup, heq⟩ := routeUpdate_spec conf env ip hop metric seq e
  have hfound : (routeFind env ip e.routes).2 = firstRoute (routeFind env ip e.routes).1 ip := by
    rw [firstRoute_routeFind, routeFind_found]
  rw [heq, hfound]
  generalize (routeFind env ip e.routes).1 = t₀ at hup
  cases hup with
  | unheard hn =>
      rw [hhop] at hn
      cases hn
  | refused hf hs =>
      rw [hf]
      exact followsRule_refused_iff hs
  | noMemory hf hm =>
      rw [hf]
      refine iff_of_false ?_ (by simp [DecidesByRule, hm])
      intro h
      obtain ⟨route, hafter, -⟩ := h.news trivial
      cases hafter
  | @accepted p route hn hf hs =>
      have hafter := firstRoute_modify t₀ p (routeAccept env hop metric seq) (fun _ => rfl) ip
      rw [hf, Option.map_some, if_pos rfl] at hafter
      rw [hafter, hf]
      exact followsRule_accepted_iff hs
  | installed hn hf hm =>
      refine iff_of_true ⟨fun _ => ?_, fun hnot => absurd (hf ▸ trivial) hnot⟩ (hf ▸ hm)
      have hafter := (firstRoute_push t₀ (routeAccept env hop metric seq
        { routeNew conf env ip with dev := conf.devLookupByIp ip }) ip).trans (if_pos rfl)
      rw [hafter]
      exact ⟨_, rfl, accepted_routeAccept hop metric seq _⟩

/-- A newer number is taken. -/
theorem route_acceptance_newer : ∃ e, heardNeighbour = some e ∧
    neighValid (.plenty 200) 0x0a000002 e.neighs = true ∧
      FollowsRule (.plenty 200) 0x0a000002 1 5
        ((routeFind (.plenty 200) 0x0a000002 e.routes).2.map Prod.snd)
        ((firstRoute (routeUpdate (lanNode true 0x0a000001).1 (.plenty 200) 0x0a000002 0x0a000002 1
          5 e).1.routes 0x0a000002).map Prod.snd) := by
  refine ⟨_, rfl, by decide, ?_⟩
  apply (route_acceptance_iff _ (.plenty 200) 0x0a000002 0x0a000002 1 5 _ (by decide)).mpr
  exact ⟨fun heq => absurd heq (by decide), by decide⟩

/-- The neighbour offers a route to `10.0.0.9` over three hops with number 7, and then one over
two hops with the same number. The shorter one is refused. -/
theorem shorter_route_refused : ∃ e, heardNeighbour = some e ∧
    let e' := (routeUpdate (lanNode true 0x0a000001).1 (.plenty 200) 0x0a000009 0x0a000002 3 7 e).1
    neighValid (.plenty 300) 0x0a000002 e'.neighs = true ∧
      ¬FollowsRule (.plenty 300) 0x0a000002 2 7
        ((routeFind (.plenty 300) 0x0a000009 e'.routes).2.map Prod.snd)
        ((firstRoute (routeUpdate (lanNode true 0x0a000001).1 (.plenty 300) 0x0a000009 0x0a000002 2
          7 e').1.routes 0x0a000009).map Prod.snd) := by
  refine ⟨_, rfl, by decide, ?_⟩
  intro h
  obtain ⟨route, hafter, haccepted⟩ := h.news (.inr ⟨by decide, .inr (by decide)⟩)
  obtain rfl := Option.some.inj hafter
  exact absurd haccepted.metric (by decide)

/-! ## Staleness -/

/-- The lookup of `ip` gives no valid learned route that is over, and a packet to `ip` in the
local subnet goes out only through a self route or one that is not over. -/
structure StaleUnused (conf : EngineConf) (env : Env) (ip : U32) (e : RouteEngine) : Prop where
  lookup : ∀ p route, (routeFind env ip e.routes).2 = some (p, route) →
    route.selfRoute = false → route.routeValid = true → timeBefore route.lifetime env.now = false
  forward : ip ≠ conf.broadcastIp → conf.checkSubnet ip = true →
    (ipPacketOutput conf env ip e).1 = .forward → ∃ p route,
      (routeFind env ip e.routes).2 = some (p, route) ∧ route.routeValid = true ∧
        (route.selfRoute = true ∨ timeBefore route.lifetime env.now = false)

/-- A valid learned route that is over and has no device cannot be expired. -/
def Unexpirable (env : Env) (route : MeshRoute) : Prop :=
  timeBefore route.lifetime env.now = true ∧ route.selfRoute = false ∧ route.routeValid = true ∧
    route.dev = none

theorem ageRoute_fresh_iff (route : MeshRoute) :
    ((ageRoute env route).selfRoute = false → (ageRoute env route).routeValid = true →
        timeBefore (ageRoute env route).lifetime env.now = false) ↔ ¬Unexpirable env route := by
  by_cases hover : timeBefore route.lifetime env.now && !route.selfRoute && route.routeValid
  · have hage : ageRoute env route = routeExpire env route := if_pos hover
    simp only [Bool.and_eq_true, Bool.not_eq_true'] at hover
    rw [hage]
    cases hdev : route.dev with
    | none => simp [routeExpire, hdev, Unexpirable, hover.1.1, hover.1.2, hover.2]
    | some d => simp [routeExpire, hdev, Unexpirable]
  · have hage : ageRoute env route = route := if_neg hover
    rw [hage]
    simp only [Bool.and_eq_true, Bool.not_eq_true', not_and, Bool.not_eq_true] at hover
    constructor
    · rintro - ⟨htime, hself, hvalid, -⟩
      rw [hover ⟨htime, hself⟩] at hvalid
      cases hvalid
    · intro _ hself hvalid
      by_contra htime
      rw [hover ⟨by simpa using htime, hself⟩] at hvalid
      cases hvalid

/-- An outgoing packet to the subnet goes out through the entry that the lookup gives. -/
theorem route_of_forward {ip : U32} {e : RouteEngine} (hip : ip ≠ conf.broadcastIp)
    (hnet : conf.checkSubnet ip = true) (h : (ipPacketOutput conf env ip e).1 = .forward) :
    ∃ p route, (routeFind env ip e.routes).2 = some (p, route) ∧ route.routeValid = true := by
  unfold ipPacketOutput at h
  rw [if_neg hip, if_neg (by simp [hnet])] at h
  cases hfind : routeFind env ip e.routes with
  | mk routes found =>
      rw [hfind] at h
      cases found with
      | none => cases h
      | some c =>
          obtain ⟨p, route⟩ := c
          refine ⟨p, route, rfl, ?_⟩
          by_contra hvalid
          have hinvalid : route.routeValid = false := by simpa using hvalid
          simp [hinvalid] at h

/-- A stale route is not used, at any time and for any destination, exactly when the entry for
it is not one that cannot be expired. -/
theorem stale_unused_iff (conf : EngineConf) (env : Env) (ip : U32) (e : RouteEngine) :
    StaleUnused conf env ip e ↔
      ∀ p route, firstRoute e.routes ip = some (p, route) → ¬Unexpirable env route := by
  have hlookup : (∀ p route, (routeFind env ip e.routes).2 = some (p, route) →
      route.selfRoute = false → route.routeValid = true →
        timeBefore route.lifetime env.now = false) ↔
      ∀ p route, firstRoute e.routes ip = some (p, route) → ¬Unexpirable env route := by
    rw [routeFind_found]
    constructor
    · intro h p route hfirst
      rw [hfirst] at h
      exact (ageRoute_fresh_iff route).mp (h p _ rfl)
    · intro h p route hfound
      obtain ⟨⟨p', route'⟩, hfirst, heq⟩ := Option.map_eq_some_iff.mp hfound
      obtain ⟨rfl, rfl⟩ := Prod.mk.inj heq
      exact (ageRoute_fresh_iff route').mpr (h p' route' hfirst)
  constructor
  · intro h
    exact hlookup.mp h.lookup
  · intro h
    have hfresh := hlookup.mpr h
    refine ⟨hfresh, ?_⟩
    intro hip hnet hforward
    obtain ⟨p, route, hfound, hvalid⟩ := route_of_forward hip hnet hforward
    refine ⟨p, route, hfound, hvalid, ?_⟩
    cases hself : route.selfRoute with
    | true => exact .inl rfl
    | false => exact .inr (hfresh p route hfound hself hvalid)

/-- A RREQ of `11.0.0.3`, which is in no subnet of the node, comes through the neighbour. Its
route is good until 3200, and at 5000 the lookup still gives it as valid. -/
theorem stale_route_found : ∃ e,
    Machine.finish (taskStep (lanNode false 0x0a000001).1)
      [(.plenty 100, lanTask 100 (lanDev 0x0a000001) 0x0a000002 (.reply (helloPdu 0x0a000002 1))),
       (.plenty 200, lanTask 200 (lanDev 0x0a000001) 0x0a000002
          (.request (requestPdu 0x0b000003 2 2 0x0a000009 0)))]
      (lanNode false 0x0a000001).2 = some e ∧
    ((routeFind (.plenty 5000) 0x0b000003 e.routes).2.map fun c =>
      (c.2.routeValid, c.2.selfRoute, c.2.lifetime)) = some (true, false, 3200) ∧
    (ipPacketOutput (lanNode false 0x0a000001).1 (.plenty 5000) 0x0b000003 e).1 = .forward ∧
    ¬StaleUnused (lanNode false 0x0a000001).1 (.plenty 5000) 0x0b000003 e := by
  refine ⟨_, rfl, by decide, by decide, ?_⟩
  intro h
  exact absurd (h.lookup _ _ rfl (by decide) (by decide)) (by decide)

end Maodv
end WirelessMesh
