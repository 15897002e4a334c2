import WirelessMesh.Maodv.Task

/-!
# What the handlers do to the route table

Each handler is a fixed sequence of lookups, which age entries, around at most
two writes. The relations below name the writes with the conditions under which
they happen.
-/

namespace WirelessMesh
namespace Maodv

open Routes

variable {conf : EngineConf} {env : Env}

/-! ## Ageing -/

/-- The entry is untouched, or was a valid learned route and has been expired. -/
def Worn (env : Env) (r r' : MeshRoute) : Prop :=
  r' = r ∨ (r.selfRoute = false ∧ r.routeValid = true ∧ r' = routeExpire env r)

namespace Worn

variable {r r' r'' : MeshRoute}

theorem refl (r : MeshRoute) : Worn env r r := .inl rfl

theorem trans (h : Worn env r r') (h' : Worn env r' r'') : Worn env r r'' := by
  rcases h with rfl | ⟨hs, hv, rfl⟩
  · exact h'
  · rcases h' with rfl | ⟨_, hv', rfl⟩
    · exact .inr ⟨hs, hv, rfl⟩
    · cases hd : r.dev with
      | none => exact .inr ⟨hs, hv, by simp [routeExpire, hd]⟩
      | some d => simp [routeExpire, hd] at hv'

theorem ip (h : Worn env r r') : r'.ip = r.ip := by
  rcases h with rfl | ⟨_, _, rfl⟩
  · rfl
  · unfold routeExpire; split <;> rfl

theorem selfRoute (h : Worn env r r') : r'.selfRoute = r.selfRoute := by
  rcases h with rfl | ⟨_, _, rfl⟩
  · rfl
  · unfold routeExpire; split <;> rfl

theorem nextHop (h : Worn env r r') : r'.nextHop = r.nextHop := by
  rcases h with rfl | ⟨_, _, rfl⟩
  · rfl
  · unfold routeExpire; split <;> rfl

theorem netmask (h : Worn env r r') : r'.netmask = r.netmask := by
  rcases h with rfl | ⟨_, _, rfl⟩
  · rfl
  · unfold routeExpire; split <;> rfl

theorem eq_of_self (h : Worn env r r') (hs : r.selfRoute = true) : r' = r := by
  rcases h with rfl | ⟨hf, _, _⟩
  · rfl
  · simp [hs] at hf

end Worn

theorem worn_ageRoute (r : MeshRoute) : Worn env r (ageRoute env r) := by
  unfold ageRoute
  split_ifs with h
  · simp only [Bool.and_eq_true, Bool.not_eq_true'] at h
    exact .inr ⟨h.1.2, h.2, rfl⟩
  · exact .refl r

@[simp] theorem ageRoute_ip (r : MeshRoute) : (ageRoute env r).ip = r.ip := (worn_ageRoute r).ip

theorem ageRoute_idem (r : MeshRoute) : ageRoute env (ageRoute env r) = ageRoute env r := by
  by_cases h : timeBefore r.lifetime env.now && !r.selfRoute && r.routeValid
  · cases hd : r.dev with
    | none => simp [ageRoute, routeExpire, hd]
    | some d => simp [ageRoute, routeExpire, hd, h]
  · simp [ageRoute, h]

def Aged (env : Env) (r r' : MeshRoute) : Prop := r' = r ∨ r' = ageRoute env r

theorem Aged.refl (r : MeshRoute) : Aged env r r := .inl rfl

theorem Aged.trans {r r' r'' : MeshRoute} (h : Aged env r r') (h' : Aged env r' r'') :
    Aged env r r'' := by
  rcases h with rfl | rfl
  · exact h'
  · rcases h' with rfl | rfl
    · exact .inr rfl
    · exact .inr (ageRoute_idem r)

theorem Aged.worn {r r' : MeshRoute} (h : Aged env r r') : Worn env r r' := by
  rcases h with rfl | rfl
  · exact .refl _
  · exact worn_ageRoute r

abbrev AgedTable (env : Env) : RouteTable → RouteTable → Prop := HeapList.Pointwise (Aged env)

theorem AgedTable.refl (t : RouteTable) : AgedTable env t t := HeapList.Pointwise.refl Aged.refl t

theorem AgedTable.trans {t t' t'' : RouteTable} (h : AgedTable env t t')
    (h' : AgedTable env t' t'') : AgedTable env t t'' := HeapList.Pointwise.trans Aged.trans h h'

abbrev WornTable (env : Env) : RouteTable → RouteTable → Prop := HeapList.Pointwise (Worn env)

theorem AgedTable.worn {t t' : RouteTable} (h : AgedTable env t t') : WornTable env t t' :=
  h.imp fun _ _ hc => ⟨hc.1, hc.2.worn⟩

theorem WornTable.trans {t t' t'' : RouteTable} (h : WornTable env t t')
    (h' : WornTable env t' t'') : WornTable env t t'' := HeapList.Pointwise.trans Worn.trans h h'

def firstRoute (t : RouteTable) (ip : U32) : Option (ℕ × MeshRoute) := t.find? fun r => r.ip == ip

theorem firstRoute_mem {t : RouteTable} {ip : U32} {p : ℕ} {r : MeshRoute}
    (h : firstRoute t ip = some (p, r)) : (p, r) ∈ t.cells := HeapList.mem_of_find? h

theorem firstRoute_ip {t : RouteTable} {ip : U32} {p : ℕ} {r : MeshRoute}
    (h : firstRoute t ip = some (p, r)) : r.ip = ip := by
  simpa using HeapList.of_find? h

theorem firstRoute_none {t : RouteTable} {ip : U32} (h : firstRoute t ip = none) {p : ℕ}
    {r : MeshRoute}
    (hr : (p, r) ∈ t.cells) : r.ip ≠ ip := by
  simpa using HeapList.not_of_find?_none h hr

theorem firstRoute_push (t : RouteTable) (r : MeshRoute) (ip : U32) :
    firstRoute (t.push r) ip = if r.ip = ip then some (t.next, r) else firstRoute t ip := by
  unfold firstRoute HeapList.find?
  by_cases h : r.ip = ip <;> simp [h]

theorem firstRoute_modify (t : RouteTable) (p : ℕ) (f : MeshRoute → MeshRoute)
    (hf : ∀ r, (f r).ip = r.ip) (ip : U32) :
    firstRoute (t.modify p f) ip =
      (firstRoute t ip).map fun c => (c.1, if c.1 = p then f c.2 else c.2) :=
  HeapList.find?_modify p f _ (fun r => by rw [hf]) t

theorem WornTable.firstRoute_eq {t t' : RouteTable} (h : WornTable env t t') (ip : U32) :
    (firstRoute t ip = none ∧ firstRoute t' ip = none) ∨
      ∃ p r r', firstRoute t ip = some (p, r) ∧ firstRoute t' ip = some (p, r') ∧ Worn env r r' :=
  HeapList.Pointwise.find?_eq h fun hw => by simp [hw.ip]

theorem routeFind_aged (env : Env) (ip : U32) (t : RouteTable) :
    AgedTable env t (routeFind env ip t).1 :=
  HeapList.walk_pointwise Aged.refl (fun _ => .inr rfl) _ t

theorem routeFind_found (env : Env) (ip : U32) (t : RouteTable) :
    (routeFind env ip t).2 = (firstRoute t ip).map fun c => (c.1, ageRoute env c.2) :=
  HeapList.find?_walk (ageRoute env) (fun r => r.ip == ip) (fun r => by simp) t

theorem firstRoute_routeFind (env : Env) (ip : U32) (t : RouteTable) :
    firstRoute (routeFind env ip t).1 ip = (firstRoute t ip).map fun c => (c.1, ageRoute env c.2) :=
  routeFind_found env ip t

/-! ## `_engine_route_update` -/

/-- The outcomes of an update for `ip` through `hop`, on a table that has just
been searched for `ip`. -/
inductive Updated (conf : EngineConf) (env : Env) (neighs : HeapList RouteNeigh)
    (ip hop : U32) (metric : U8) (seq : U32) : RouteTable → RouteTable → Prop
  | unheard {t} (hn : neighValid env hop neighs = false) :
      Updated conf env neighs ip hop metric seq t t
  | refused {t p r} (hf : firstRoute t ip = some (p, r)) (hs : seqGreater r.seq seq = true) :
      Updated conf env neighs ip hop metric seq t t
  | noMemory {t} (hf : firstRoute t ip = none) (hm : env.mem .route = false) :
      Updated conf env neighs ip hop metric seq t t
  | accepted {t p r} (hn : neighValid env hop neighs = true) (hf : firstRoute t ip = some (p, r))
      (hs : seqGreater r.seq seq = false) :
      Updated conf env neighs ip hop metric seq t (t.modify p (routeAccept env hop metric seq))
  | installed {t} (hn : neighValid env hop neighs = true) (hf : firstRoute t ip = none)
      (hm : env.mem .route = true) :
      Updated conf env neighs ip hop metric seq t
        (t.push (routeAccept env hop metric seq
          { routeNew conf env ip with dev := conf.devLookupByIp ip }))

/-- The test for an equal number comes too late: `seq_greater` already refused it. -/
theorem seqGreater_self (s : U32) : seqGreater s s = true := by simp [seqGreater]

theorem routeUpdate_spec (conf : EngineConf) (env : Env) (ip hop : U32) (metric : U8) (seq : U32)
    (e : RouteEngine) :
    ∃ t, Updated conf env e.neighs ip hop metric seq (routeFind env ip e.routes).1 t ∧
      (routeUpdate conf env ip hop metric seq e).1 = { e with routes := t } := by
  have hent := firstRoute_routeFind env ip e.routes
  rw [← routeFind_found] at hent
  unfold routeUpdate
  generalize routeFind env ip e.routes = res at hent
  obtain ⟨t, found⟩ := res
  simp only at hent ⊢
  by_cases hn : neighValid env hop e.neighs = true
  · simp only [hn, Bool.not_true, Bool.false_eq_true, if_false]
    cases found with
    | none =>
        by_cases hm : env.mem .route = true
        · exact ⟨_, .installed hn hent hm, by simp [hm]⟩
        · exact ⟨t, .noMemory hent (by simpa using hm), by simp [hm]⟩
    | some c =>
        obtain ⟨p, r⟩ := c
        by_cases hs : seqGreater r.seq seq = true
        · exact ⟨t, .refused hent hs, by simp [hs]⟩
        · refine ⟨_, .accepted hn hent (by simpa using hs), ?_⟩
          have hne : seq ≠ r.seq := by
            rintro rfl
            exact hs (seqGreater_self _)
          simp [hs, hne]
  · exact ⟨t, .unheard (by simpa using hn), by simp [hn]⟩

/-! ## `__request_should_be_reply` -/

@[simp] theorem routeRefresh_ip (r : MeshRoute) : (routeRefresh env r).ip = r.ip := by
  simp only [routeRefresh]

@[simp] theorem routeRefresh_seq (r : MeshRoute) : (routeRefresh env r).seq = r.seq := by
  simp only [routeRefresh]

@[simp] theorem routeRefresh_nextHop (r : MeshRoute) :
    (routeRefresh env r).nextHop = r.nextHop := by
  simp only [routeRefresh]

@[simp] theorem routeRefresh_selfRoute (r : MeshRoute) :
    (routeRefresh env r).selfRoute = r.selfRoute := by
  simp only [routeRefresh]

@[simp] theorem routeRefresh_routeValid (r : MeshRoute) :
    (routeRefresh env r).routeValid = true := by
  simp only [routeRefresh]

/-- The outcomes of the decision to answer a RREQ, on a table that has just been
searched for the requested address. -/
inductive Answered (conf : EngineConf) (env : Env) (myRoute : ℕ) (request : AodvPduRequest) :
    RouteTable → RouteTable → Bool → Prop
  | silent {t} : Answered conf env myRoute request t t false
  | refreshed {t p r} (hout : conf.checkSubnet request.dstIp = false)
      (hg : conf.supportGateway = true) (hf : firstRoute t request.dstIp = some (p, r)) :
      Answered conf env myRoute request t (t.modify p (routeRefresh env)) true
  | gatewayed {t my} (hout : conf.checkSubnet request.dstIp = false)
      (hg : conf.supportGateway = true) (hf : firstRoute t request.dstIp = none)
      (hmy : t.get? myRoute = some my) :
      Answered conf env myRoute request t
        (t.push (routeRefresh env (routeLocal conf env request.dstIp my))) true
  | shadowed {t p r my} (hout : conf.checkSubnet request.dstIp = false)
      (hg : conf.supportGateway = false) (hf : firstRoute t request.dstIp = some (p, r))
      (hmask : r.netmask ≠ conf.broadcastIp) (hmy : t.get? myRoute = some my) :
      Answered conf env myRoute request t
        (t.push (routeRefresh env (routeLocal conf env request.dstIp my))) true
  | raised {t p r} (hf : firstRoute t request.dstIp = some (p, r)) (hself : r.selfRoute = true)
      (hs : seqLessOrEqual r.seq request.dstSeq = true) :
      Answered conf env myRoute request t
        (t.modify p fun r => { r with seq := request.dstSeq + 1 }) true
  | stands {t p r} (hf : firstRoute t request.dstIp = some (p, r)) (hself : r.selfRoute = true) :
      Answered conf env myRoute request t t true

theorem requestShouldBeReply_spec {request : AodvPduRequest} {e e' : RouteEngine} {b : Bool}
    (h : requestShouldBeReply conf env request e = some (e', b)) :
    ∃ t, Answered conf env e.myRoute request (routeFind env request.dstIp e.routes).1 t b ∧
      e' = { e with routes := t } := by
  have hent := firstRoute_routeFind env request.dstIp e.routes
  rw [← routeFind_found] at hent
  unfold requestShouldBeReply at h
  generalize routeFind env request.dstIp e.routes = res at hent h
  obtain ⟨t, found⟩ := res
  simp only at hent h ⊢
  by_cases hout : conf.checkSubnet request.dstIp = true
  · -- inside a device's subnet only the destination itself answers
    simp only [hout, Bool.not_true, Bool.false_eq_true, if_false] at h
    cases found with
    | none =>
        obtain ⟨rfl, rfl⟩ := by simpa using h
        exact ⟨t, .silent, rfl⟩
    | some c =>
        obtain ⟨p, r⟩ := c
        by_cases hself : r.selfRoute = true
        · by_cases hs : seqLessOrEqual r.seq request.dstSeq = true
          · obtain ⟨rfl, rfl⟩ := by simpa [hself, hs] using h
            exact ⟨_, .raised hent hself hs, rfl⟩
          · obtain ⟨rfl, rfl⟩ := by simpa [hself, hs] using h
            exact ⟨t, .stands hent hself, rfl⟩
        · obtain ⟨rfl, rfl⟩ := by simpa [hself] using h
          exact ⟨t, .silent, rfl⟩
  · replace hout : conf.checkSubnet request.dstIp = false := by simpa using hout
    simp only [hout, Bool.not_false, if_true] at h
    by_cases hg : conf.supportGateway = true
    · simp only [hg, if_true] at h
      cases found with
      | none =>
          obtain ⟨my, hmy, h⟩ := Option.bind_eq_some_iff.mp h
          split_ifs at h
          obtain ⟨rfl, rfl⟩ := by simpa using h
          exact ⟨_, .gatewayed hout hg hent hmy, rfl⟩
      | some c =>
          obtain ⟨rfl, rfl⟩ := by simpa using h
          exact ⟨_, .refreshed hout hg hent, rfl⟩
    · replace hg : conf.supportGateway = false := by simpa using hg
      simp only [hg, Bool.false_eq_true, if_false] at h
      cases found with
      | none =>
          obtain ⟨rfl, rfl⟩ := by simpa using h
          exact ⟨t, .silent, rfl⟩
      | some c =>
          obtain ⟨p, r⟩ := c
          by_cases hmask : r.netmask = conf.broadcastIp
          · obtain ⟨rfl, rfl⟩ := by simpa [hmask] using h
            exact ⟨t, .silent, rfl⟩
          · simp only [ne_eq, hmask, not_false_eq_true, if_true] at h
            obtain ⟨my, hmy, h⟩ := Option.bind_eq_some_iff.mp h
            split_ifs at h
            obtain ⟨rfl, rfl⟩ := by simpa using h
            exact ⟨_, .shadowed hout hg hent hmask hmy, rfl⟩

end Maodv
end WirelessMesh
