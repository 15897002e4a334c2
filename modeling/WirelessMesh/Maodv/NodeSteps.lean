import WirelessMesh.Maodv.RouteMoves

/-!
# The handlers keep the node's routes in order

For each handler: the table it leaves still stands on the table it found, and
what it sends is backed by what the table then holds.
-/

namespace WirelessMesh
namespace Maodv

open Routes

variable {conf : EngineConf} {env : Env} {own : List U32} {my : ℕ} {B : Base own}

/-! ## `_engine_route_update` -/

section Update

variable {neighs : HeapList RouteNeigh} {ip hop seq : U32} {metric : U8} {t₁ t₂ : RouteTable}

theorem AgedTable.firstRoute_eq {t t' : RouteTable} (h : AgedTable env t t') (a : U32) :
    (firstRoute t a = none ∧ firstRoute t' a = none) ∨
      ∃ p r r', firstRoute t a = some (p, r) ∧ firstRoute t' a = some (p, r') ∧ Aged env r r' :=
  HeapList.Pointwise.find?_eq h fun hw => by simp [hw.worn.ip]

theorem Base.peak_le_of_newer (ha : AgedTable env B.routes t₁) {p : ℕ} {r : MeshRoute}
    (hr : (p, r) ∈ t₁.cells) (hown : r.ip ∉ own) (hseq : seq.toNat < 2 ^ 31)
    (hs : seqGreater r.seq seq = false) :
    B.peak r.ip ≤ seq.toNat := by
  obtain ⟨r₀, hr₀, hrr⟩ := ha.worn.mem_left hr
  have hb := B.worn_seq hr₀ hrr
  have hlt := (seqGreater_eq_false_iff (by omega) (by omega)).mp hs
  have hsharp : r₀.seq.toNat + 1 = B.peak r₀.ip := B.sharp _ hr₀ (by rwa [← hrr.ip])
  rw [hrr.ip]
  omega

theorem Standing.updated (hhome : Home own my B.routes) (ha : AgedTable env B.routes t₁)
    (hu : Updated conf env neighs ip hop metric seq t₁ t₂) (hoffer : B.offer ip seq hop)
    (hseq : seq.toNat < 2 ^ 31)
    (hnew : firstRoute B.routes ip = none → B.peak ip ≤ seq.toNat) : Standing my B t₂ := by
  have hS : Standing my B t₁ := (Standing.refl hhome).worn ha.worn
  cases hu with
  | unheard _ => exact hS
  | refused _ _ => exact hS
  | noMemory _ _ => exact hS
  | @accepted p r _ hf hs =>
      refine hS.modify (fun _ => rfl) (fun _ => rfl) (fun _ _ => rfl) ?_
      intro r' hr' hown
      obtain rfl := HeapList.eq_of_mem hr' (firstRoute_mem hf)
      have hip := firstRoute_ip hf
      have hpeak := Base.peak_le_of_newer ha hr' hown hseq hs
      exact .adopted (by simpa [routeAccept, hip] using hoffer) hseq hpeak
  | installed _ hf _ =>
      have hbase : firstRoute B.routes ip = none := by
        obtain ⟨hnone, -⟩ | ⟨p, r, r', -, hr', -⟩ := ha.firstRoute_eq ip
        · exact hnone
        · simp [hf] at hr'
      exact hS.push hf rfl (.adopted hoffer hseq (hnew hbase))

/-- After an update that was heard, and could be stored, the table backs the
advertised number. -/
theorem Updated.backed (ha : AgedTable env B.routes t₁)
    (hu : Updated conf env neighs ip hop metric seq t₁ t₂)
    (hheard : neighValid env hop neighs = true) (hseq : seq.toNat < 2 ^ 31)
    (hmem : firstRoute B.routes ip = none → env.mem .route = true) :
    ∃ c ∈ t₂.cells, c.2.ip = ip ∧ seq.toNat ≤ c.2.seq.toNat ∧ c.2.seq.toNat < 2 ^ 31 := by
  cases hu with
  | unheard hn => simp [hheard] at hn
  | @refused p r hf hs =>
      obtain ⟨r₀, hr₀, hrr⟩ := ha.worn.mem_left (firstRoute_mem hf)
      have hb := B.worn_seq hr₀ hrr
      refine ⟨(p, r), firstRoute_mem hf, firstRoute_ip hf, ?_, hb.2⟩
      have hnot := (seqGreater_eq_false_iff (a := r.seq) (b := seq) (by omega) (by omega)).not
      rw [hs] at hnot
      simpa using hnot
  | noMemory hf hm =>
      obtain ⟨hnone, -⟩ | ⟨p, r, r', -, hr', -⟩ := ha.firstRoute_eq ip
      · simp [hmem hnone] at hm
      · simp [hf] at hr'
  | @accepted p r _ hf _ =>
      have hip : r.ip = ip := firstRoute_ip hf
      exact ⟨_, HeapList.mem_modify_self (firstRoute_mem hf), hip, le_rfl, hseq⟩
  | installed _ _ _ => exact ⟨_, List.mem_cons_self, rfl, le_rfl, hseq⟩

theorem Updated.firstRoute_other (hu : Updated conf env neighs ip hop metric seq t₁ t₂) {a : U32}
    (hne : ip ≠ a) : firstRoute t₂ a = firstRoute t₁ a := by
  cases hu with
  | unheard _ => rfl
  | refused _ _ => rfl
  | noMemory _ _ => rfl
  | @accepted p r _ hf _ =>
      rw [firstRoute_modify t₁ p (routeAccept env hop metric seq) (fun _ => rfl)]
      cases ha : firstRoute t₁ a with
      | none => rfl
      | some c =>
          obtain ⟨q, s⟩ := c
          have hq : q ≠ p := by
            rintro rfl
            have hrs := HeapList.eq_of_mem (firstRoute_mem hf) (firstRoute_mem ha)
            exact hne (by rw [← firstRoute_ip hf, hrs, firstRoute_ip ha])
          simp [hq]
  | installed _ _ _ =>
      rw [firstRoute_push, if_neg]
      exact hne

theorem Updated.my_seq (hhome : Home own my B.routes) (ha : AgedTable env B.routes t₁)
    (hu : Updated conf env neighs ip hop metric seq t₁ t₂) (hseq : seq.toNat < 2 ^ 31)
    {r : MeshRoute} (hr : (my, r) ∈ t₂.cells) :
    ∃ r₀, (my, r₀) ∈ B.routes.cells ∧ r₀.seq.toNat ≤ r.seq.toNat ∧ r.seq.toNat < 2 ^ 31 := by
  obtain ⟨r₀, hr₀, hown⟩ := hhome.mine
  obtain ⟨r₁, hr₁, hrr⟩ := ha.worn.mem_right hr₀
  have hb := B.worn_seq hr₀ hrr
  have hsame : (my, r) ∈ t₁.cells →
      ∃ r₀, (my, r₀) ∈ B.routes.cells ∧ r₀.seq.toNat ≤ r.seq.toNat ∧ r.seq.toNat < 2 ^ 31 := by
    intro hr
    obtain rfl := HeapList.eq_of_mem hr hr₁
    exact ⟨r₀, hr₀, hb⟩
  cases hu with
  | unheard _ => exact hsame hr
  | refused _ _ => exact hsame hr
  | noMemory _ _ => exact hsame hr
  | @accepted p r' _ hf hs =>
      obtain ⟨x, hx, rfl⟩ := HeapList.mem_modify.mp hr
      obtain rfl := HeapList.eq_of_mem hx hr₁
      split_ifs with hp
      · subst hp
        obtain rfl := HeapList.eq_of_mem hx (firstRoute_mem hf)
        have hlt := (seqGreater_eq_false_iff (by omega) (by omega)).mp hs
        refine ⟨r₀, hr₀, ?_, hseq⟩
        simp only [routeAccept]
        omega
      · exact ⟨r₀, hr₀, hb⟩
  | installed _ _ _ =>
      rcases List.mem_cons.mp hr with heq | hr
      · obtain ⟨rfl, -⟩ := Prod.mk.inj heq
        exact absurd hr₁ (HeapList.next_notMem _ _)
      · exact hsame hr

end Update

/-! ## What is sent -/

/-- The node answers to `d`, or has an entry for it that is not behind `s`. -/
def Backed (own : List U32) (t : RouteTable) (d s : U32) : Prop :=
  d ∈ own ∨ ∃ c ∈ t.cells, c.2.ip = d ∧ s.toNat ≤ c.2.seq.toNat

/-- A datagram as the engines send them: what it advertises is backed by the
table, a RREQ does not ask for its own source, and a HELLO speaks for the sender. -/
structure FrameOk (own : List U32) (t : RouteTable) (f : Frame) : Prop where
  src : f.srcIp ∈ own
  backed : ∀ a ∈ advert f.pdu, Backed own t a.1 a.2
  request : ∀ request, f.pdu = .request request → request.srcIp ≠ request.dstIp
  hello : ∀ reply, f.pdu = .reply reply → reply.srcIp = reply.dstIp → reply.dstIp ∈ own

theorem FrameOk.ofRequest {t : RouteTable} {f : Frame} {request : AodvPduRequest}
    (hsrc : f.srcIp ∈ own) (hpdu : f.pdu = .request request)
    (hb : Backed own t request.srcIp request.srcSeq) (hne : request.srcIp ≠ request.dstIp) :
    FrameOk own t f where
  src := hsrc
  backed := by
    intro a ha
    obtain rfl : (request.srcIp, request.srcSeq) = a := by simpa [hpdu, advert] using ha
    exact hb
  request := by
    intro q hq
    obtain rfl : request = q := by simpa [hpdu] using hq
    exact hne
  hello := by
    intro reply hr
    simp [hpdu] at hr

theorem FrameOk.ofReply {t : RouteTable} {f : Frame} {reply : AodvPduReply}
    (hsrc : f.srcIp ∈ own) (hpdu : f.pdu = .reply reply)
    (hb : Backed own t reply.dstIp reply.dstSeq)
    (hhello : reply.srcIp = reply.dstIp → reply.dstIp ∈ own) : FrameOk own t f where
  src := hsrc
  backed := by
    intro a ha
    obtain rfl : (reply.dstIp, reply.dstSeq) = a := by simpa [hpdu, advert] using ha
    exact hb
  request := by
    intro q hq
    simp [hpdu] at hq
  hello := by
    intro q hq
    obtain rfl : reply = q := by simpa [hpdu] using hq
    exact hhello

theorem FrameOk.ofError {t : RouteTable} {f : Frame} {errpdu : AodvPduError}
    (hsrc : f.srcIp ∈ own) (hpdu : f.pdu = .error errpdu) : FrameOk own t f where
  src := hsrc
  backed := by simp [hpdu, advert]
  request := by simp [hpdu]
  hello := by simp [hpdu]

theorem Backed.worn {t t' : RouteTable} (hw : WornTable env t t') {d s : U32}
    (h : ∃ c ∈ t.cells, c.2.ip = d ∧ s.toNat ≤ c.2.seq.toNat ∧ c.2.seq.toNat < 2 ^ 31) :
    Backed own t' d s := by
  obtain ⟨⟨p, r⟩, hr, hip, hs, hb⟩ := h
  obtain ⟨r', hr', hrr⟩ := hw.mem_right hr
  have hle := hrr.seq_le hb
  exact .inr ⟨(p, r'), hr', hrr.ip.trans hip, by simp only at hs ⊢; omega⟩

/-! ## `_engine_rx_request` -/

structure RequestFits (conf : EngineConf) (env : Env) (my : ℕ) (B : Base own)
    (request : AodvPduRequest) : Prop where
  memory : firstRoute B.routes request.srcIp = none → env.mem .route = true
  new : firstRoute B.routes request.srcIp = none → B.peak request.srcIp ≤ request.srcSeq.toNat
  usable : conf.checkSubnet request.dstIp = false → conf.supportGateway = true →
    ∀ c ∈ firstRoute B.routes request.dstIp, c.2.selfRoute = true ∨
      c.2.nextHop = request.dstIp ∨ (c.2.routeValid = true ∧ ageRoute env c.2 = c.2)
  gateway : conf.checkSubnet request.dstIp = false → conf.supportGateway = true →
    firstRoute B.routes request.dstIp = none →
    ∀ r, (my, r) ∈ B.routes.cells → B.peak request.dstIp ≤ r.seq.toNat + 1
  mask : conf.checkSubnet request.dstIp = false → conf.supportGateway = false →
    ∀ c ∈ firstRoute B.routes request.dstIp, c.2.netmask = conf.broadcastIp

section Request

variable {packet : RouteTask} {request : AodvPduRequest} {e : RouteEngine} {done : Done}
  {t₁ t₂ t₃ t₄ : RouteTable} {b : Bool}

/-- The entry for the requested address is found as the step found it, but for
ageing. -/
theorem RequestTrace.firstRoute_dst
    (tr : RequestTrace conf env packet request e done t₁ t₂ t₃ t₄ b)
    (hne : request.srcIp ≠ request.dstIp) :
    (firstRoute e.routes request.dstIp = none ∧ firstRoute t₃ request.dstIp = none) ∨
      ∃ p r r', firstRoute e.routes request.dstIp = some (p, r) ∧
        firstRoute t₃ request.dstIp = some (p, r') ∧ Aged env r r' := by
  have hmid := tr.updated.firstRoute_other hne
  obtain ⟨h₀, h₁⟩ | ⟨p, r, r₁, h₀, h₁, hrr⟩ := tr.aged.firstRoute_eq request.dstIp
  · obtain ⟨-, h₃⟩ | ⟨q, s, s', h₂, -, -⟩ := tr.aged'.firstRoute_eq request.dstIp
    · exact .inl ⟨h₀, h₃⟩
    · simp [hmid, h₁] at h₂
  · obtain ⟨h₂, -⟩ | ⟨q, s, s', h₂, h₃, hss⟩ := tr.aged'.firstRoute_eq request.dstIp
    · simp [hmid, h₁] at h₂
    · obtain ⟨rfl, rfl⟩ : p = q ∧ r₁ = s := by simpa [hmid, h₁] using h₂
      exact .inr ⟨p, r, s', h₀, h₃, hrr.trans hss⟩

theorem RequestTrace.found_dst
    (tr : RequestTrace conf env packet request e done t₁ t₂ t₃ t₄ b)
    (hne : request.srcIp ≠ request.dstIp) {p : ℕ} {r' : MeshRoute}
    (hf : firstRoute t₃ request.dstIp = some (p, r')) :
    ∃ r, firstRoute e.routes request.dstIp = some (p, r) ∧ Aged env r r' := by
  obtain ⟨-, hnone⟩ | ⟨q, r, r₁, h₀, h₁, hrr⟩ := tr.firstRoute_dst hne
  · simp [hf] at hnone
  · obtain ⟨rfl, rfl⟩ : p = q ∧ r' = r₁ := by simpa [hf] using h₁
    exact ⟨r, h₀, hrr⟩

theorem RequestTrace.missing_dst
    (tr : RequestTrace conf env packet request e done t₁ t₂ t₃ t₄ b)
    (hne : request.srcIp ≠ request.dstIp) (hf : firstRoute t₃ request.dstIp = none) :
    firstRoute e.routes request.dstIp = none := by
  obtain ⟨hnone, -⟩ | ⟨q, r, r₁, -, h₁, -⟩ := tr.firstRoute_dst hne
  · exact hnone
  · simp [hf] at h₁

/-- The entry that an intermediate node answers from keeps its fate when it is refreshed. -/
theorem RequestFits.fate_refresh (hfits : RequestFits conf env my B request)
    (hhome : Home own my B.routes) (hout : conf.checkSubnet request.dstIp = false)
    (hg : conf.supportGateway = true) {p : ℕ} {r₀ r : MeshRoute}
    (h₀ : firstRoute B.routes request.dstIp = some (p, r₀)) (hrr : Aged env r₀ r)
    (hown : r.ip ∉ own) : Fate B (routeRefresh env r) := by
  have hr₀ := firstRoute_mem h₀
  have hip := hrr.worn.ip
  have hb := B.worn_seq hr₀ hrr.worn
  have hown₀ : r₀.ip ∉ own := by rwa [← hip]
  have hsharp : r₀.seq.toNat + 1 = B.peak r₀.ip := B.sharp _ hr₀ hown₀
  rcases hfits.usable hout hg _ h₀ with hself | hdirect | ⟨hv, hfresh⟩
  · exact absurd ((hhome.self_iff _ hr₀).mp hself) hown₀
  · refine .direct ?_ (by simpa using hb.2) ?_
    · simpa [hrr.worn.nextHop, hip, firstRoute_ip h₀] using hdirect
    · simp only [routeRefresh_ip, routeRefresh_seq, hip]
      omega
  · have hr : r = r₀ := by
      rcases hrr with h | h
      · exact h
      · exact h.trans hfresh
    subst hr
    exact .kept hr₀ (by simp) (by simp) (by simpa using hv.symm) (by simp)

theorem Standing.answered (hS : Standing my B t₃)
    (tr : RequestTrace conf env packet request e done t₁ t₂ t₃ t₄ b)
    (he : e.routes = B.routes) (hhome : Home own my B.routes) (hmy : e.myRoute = my)
    (hne : request.srcIp ≠ request.dstIp) (hseq : request.srcSeq.toNat < 2 ^ 31)
    (hfits : RequestFits conf env my B request) : Standing my B t₄ := by
  have haged := tr.aged
  rw [he] at haged
  have hans := tr.answer
  rw [hmy] at hans
  cases hans with
  | silent => exact hS
  | stands _ _ => exact hS
  | @raised p r hf hself _ =>
      -- only the destination itself raises its number, and it owns the address
      refine hS.modify (fun _ => rfl) (fun _ => rfl) (fun _ h => h) ?_
      intro r' hr' hown
      obtain rfl := HeapList.eq_of_mem hr' (firstRoute_mem hf)
      exact absurd ((hS.self_iff _ hr').mp hself) hown
  | @refreshed p r hout hg hf =>
      refine hS.modify (fun _ => by simp) (fun _ => by simp) (fun _ _ => by simp) ?_
      intro r' hr' hown
      obtain rfl := HeapList.eq_of_mem hr' (firstRoute_mem hf)
      obtain ⟨r₀, h₀, hrr⟩ := tr.found_dst hne hf
      rw [he] at h₀
      exact hfits.fate_refresh hhome hout hg h₀ hrr hown
  | @gatewayed my' hout hg hf hget =>
      rw [HeapList.get?_eq_some] at hget
      obtain ⟨my₂, hmy₂, hrr⟩ := tr.aged'.worn.mem_left hget
      obtain ⟨my₀, hmy₀, hle, hb⟩ := tr.updated.my_seq hhome haged hseq hmy₂
      have hown : my₂.ip ∈ own := by
        obtain ⟨r, hr, hown⟩ := hS.mine
        rw [← hrr.ip, HeapList.eq_of_mem hget hr]
        exact hown
      have hself : my'.selfRoute = true := (hS.self_iff _ hget).mpr (by rwa [hrr.ip])
      have hsame : my' = my₂ := hrr.eq_of_self (by rwa [← hrr.selfRoute])
      have hnone := tr.missing_dst hne hf
      rw [he] at hnone
      have hpeak := hfits.gateway hout hg hnone my₀ hmy₀
      subst hsame
      refine hS.push (by simpa [routeLocal, routeNew] using hf) (by simp [routeLocal, routeNew])
        (.direct (by simp [routeLocal, routeNew]) (by simpa [routeLocal] using hb) ?_)
      simp only [routeRefresh_ip, routeRefresh_seq, routeLocal, routeNew]
      omega
  | @shadowed p r my' hout hg hf hmask _ =>
      obtain ⟨r₀, h₀, hrr⟩ := tr.found_dst hne hf
      rw [he] at h₀
      exact absurd (hrr.worn.netmask.trans (hfits.mask hout hg _ h₀)) hmask

theorem Standing.rxRequest (hown : conf.addrs = own) (hhome : Home own my B.routes)
    (he : e.routes = B.routes) (hmy : e.myRoute = my)
    (h : rxRequest conf env packet request e = some done)
    (hoffer : B.offer request.srcIp request.srcSeq packet.srcIp)
    (hseq : request.srcSeq.toNat < 2 ^ 31) (hne : request.srcIp ≠ request.dstIp)
    (hfits : RequestPasses env packet request e → RequestFits conf env my B request) :
    Standing my B done.engine.routes ∧ ∀ f ∈ done.sent, FrameOk own done.engine.routes f := by
  obtain ⟨-, -, t, ha, heng, hsent⟩ | ⟨t₁, t₂, t₃, t₄, b, tr⟩ := rxRequest_cases h
  · rw [he] at ha
    refine ⟨by rw [heng]; exact (Standing.refl hhome).worn ha.worn, by simp [hsent]⟩
  · replace hfits := hfits tr.passes
    have haged := tr.aged
    rw [he] at haged
    have h₂ := Standing.updated hhome haged tr.updated hoffer hseq hfits.new
    have h₄ := (h₂.worn tr.aged'.worn).answered tr he hhome hmy hne hseq hfits
    have hstand := h₄.worn tr.aged''.worn
    refine ⟨hstand, ?_⟩
    intro f hf
    cases b with
    | false =>
        rw [tr.forwarded rfl] at hf
        obtain ⟨hpdu, hsrc⟩ := EngineConf.mem_broadcast hf
        have hsilent : t₄ = t₃ := by
          have hans := tr.answer
          cases hans
          rfl
        have hw : AgedTable env t₃ done.engine.routes := hsilent ▸ tr.aged''
        have hheard := tr.passes.2.2
        have hb := tr.updated.backed haged hheard hseq hfits.memory
        exact .ofRequest (hown ▸ hsrc) hpdu (Backed.worn (tr.aged'.worn.trans hw.worn) hb) hne
    | true =>
        obtain ⟨src, q, dest, hsip, hdest, hf⟩ := tr.replied rfl f hf
        obtain ⟨hpdu, hsrc⟩ := EngineConf.mem_unicast hf
        have hdip := firstRoute_ip hdest
        refine .ofReply (hown ▸ hsrc) hpdu (.inr ⟨(q, dest), firstRoute_mem hdest, rfl, le_rfl⟩) ?_
        intro hsame
        simp only [pduReply, hsip, hdip] at hsame
        exact absurd hsame hne

end Request

/-! ## `_engine_rx_hello` and `_engine_rx_reply` -/

section Reply

variable {packet : RouteTask} {reply : AodvPduReply} {e : RouteEngine} {done : Done}

theorem Standing.rxHello (hhome : Home own my B.routes) (he : e.routes = B.routes)
    {t : RouteTable} {dev : Option RouteDev} (tr : HelloTrace conf env reply e done t dev)
    (hseq : reply.dstSeq.toNat < 2 ^ 31)
    (hnew : B.peak reply.dstIp ≤ reply.dstSeq.toNat + 1) : Standing my B done.engine.routes := by
  have ha := tr.aged
  rw [he] at ha
  have hS := (Standing.refl hhome).worn ha.worn
  rw [tr.routes]
  cases hf : firstRoute t reply.dstIp with
  | none =>
      refine hS.push hf rfl (.direct rfl hseq hnew)
  | some c =>
      obtain ⟨p, r⟩ := c
      refine hS.modify (fun _ => rfl) (fun _ => rfl) (fun _ _ => rfl) ?_
      intro r' hr' _
      obtain rfl := HeapList.eq_of_mem hr' (firstRoute_mem hf)
      have hip : r'.ip = reply.dstIp := firstRoute_ip hf
      exact .direct hip.symm hseq (by simpa [routeHello, hip] using hnew)

theorem Standing.rxReply (hown : conf.addrs = own) (hhome : Home own my B.routes)
    (he : e.routes = B.routes) {t₁ t₂ : RouteTable}
    (tr : ReplyTrace conf env packet reply e done t₁ t₂)
    (hoffer : B.offer reply.dstIp reply.dstSeq packet.srcIp) (hseq : reply.dstSeq.toNat < 2 ^ 31)
    (hmem : firstRoute B.routes reply.dstIp = none → env.mem .route = true)
    (hnew : firstRoute B.routes reply.dstIp = none → B.peak reply.dstIp ≤ reply.dstSeq.toNat) :
    Standing my B done.engine.routes ∧ ∀ f ∈ done.sent, FrameOk own done.engine.routes f := by
  have ha := tr.aged
  rw [he] at ha
  have h₂ := Standing.updated hhome ha tr.updated hoffer hseq hnew
  refine ⟨h₂.worn tr.aged'.worn, ?_⟩
  intro f hf
  obtain ⟨route, -, hf⟩ := tr.sent f hf
  obtain ⟨hpdu, hsrc⟩ := EngineConf.mem_unicast hf
  have hb := tr.updated.backed ha tr.heard hseq hmem
  exact .ofReply (hown ▸ hsrc) hpdu (Backed.worn tr.aged'.worn hb)
    fun hsame => absurd hsame tr.notHello

end Reply

/-! ## Requests, lost neighbours and cleanup -/

section Own

variable {e : RouteEngine} {done : Done}

theorem Standing.issue (hown : conf.addrs = own) (hhome : Home own my B.routes)
    (he : WornTable env B.routes e.routes) {srcIp destIp : U32} {t : RouteTable}
    (tr : IssueTrace conf env srcIp destIp e done t) (hsrc : srcIp ∈ own) (hdst : destIp ∉ own) :
    Standing my B done.engine.routes ∧ ∀ f ∈ done.sent, FrameOk own done.engine.routes f := by
  have hS := ((Standing.refl hhome).worn he).worn tr.aged.worn
  constructor
  · rw [tr.routes]
    cases hf : firstRoute t srcIp with
    | none => exact hS
    | some c =>
        obtain ⟨p, r⟩ := c
        refine hS.modify (fun _ => rfl) (fun _ => rfl) (fun _ hv => hv) ?_
        intro r' hr' hr'own
        obtain rfl := HeapList.eq_of_mem hr' (firstRoute_mem hf)
        rw [firstRoute_ip hf] at hr'own
        exact absurd hsrc hr'own
  · intro f hf
    obtain ⟨request, hf, hs, hd⟩ := tr.sent f hf
    obtain ⟨hpdu, hfsrc⟩ := EngineConf.mem_broadcast hf
    refine .ofRequest (hown ▸ hfsrc) hpdu (.inl (hs ▸ hsrc)) ?_
    rw [hs, hd]
    rintro rfl
    exact hdst hsrc

theorem Standing.neighDelete (hown : conf.addrs = own) (hhome : Home own my B.routes)
    (he : e.routes = B.routes) {ip : U32} {t : RouteTable}
    (tr : NeighDeleteTrace conf env ip e done t) (hip : ip ∉ own) :
    Standing my B done.engine.routes ∧ ∀ f ∈ done.sent, FrameOk own done.engine.routes f := by
  have ha := tr.aged
  rw [he] at ha
  have hS := (Standing.refl hhome).worn ha
  constructor
  · rcases tr.routes with hr | ⟨q, r, hf, -, hv, hr⟩ | ⟨q, r, hf, -, hv, hr⟩
    · rwa [hr]
    · -- the expired entry is one more wearing of a learned route
      have hw : WornTable env t (t.modify q (routeExpire env)) := by
        refine HeapList.map_pointwise ?_
        intro p s hs
        split_ifs with hp
        · subst hp
          obtain rfl := HeapList.eq_of_mem hs (firstRoute_mem hf)
          have hself : s.selfRoute = false := by
            by_contra hself
            have hin := (hS.self_iff _ hs).mp (by simpa using hself)
            rw [firstRoute_ip hf] at hin
            exact hip hin
          exact .inr ⟨hself, hv, rfl⟩
        · exact .refl s
      rw [hr]
      exact hS.worn hw
    · rw [hr]
      refine hS.unlink (fun c hc => (HeapList.mem_erase.mp hc).1) ?_
      rintro ⟨p, s⟩ hs hself
      refine HeapList.mem_erase.mpr ⟨hs, ?_⟩
      rintro rfl
      obtain rfl := HeapList.eq_of_mem hs (firstRoute_mem hf)
      have hin := (hS.self_iff _ hs).mp hself
      rw [firstRoute_ip hf] at hin
      exact hip hin
  · intro f hf
    obtain ⟨errpdu, hf⟩ := tr.sent f hf
    obtain ⟨hpdu, hsrc⟩ := EngineConf.mem_broadcast hf
    exact .ofError (hown ▸ hsrc) hpdu

theorem Standing.flush (hhome : Home own my B.routes) :
    Standing my B (routeFlush env B.routes) := by
  obtain ⟨t, hw, hsub, hkeep⟩ := routeFlush_cases env B.routes
  exact ((Standing.refl hhome).unlink hsub hkeep).worn hw

end Own

end Maodv
end WirelessMesh
