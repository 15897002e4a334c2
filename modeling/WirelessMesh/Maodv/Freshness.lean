import WirelessMesh.Maodv.HandlerCases

/-!
# Sequence numbers of learned routes

When does a handler leave every learned route with a sequence number that is not
behind the one it had? Lookups, expiry and accepted updates move it forward. The
HELLO path and the RERR path write the received number without looking at the
old one, and there the answer depends on the message.
-/

namespace WirelessMesh
namespace Maodv

open Routes

variable {conf : EngineConf} {env : Env}

inductive Handler where
  | rxRequest (packet : RouteTask) (request : AodvPduRequest)
  | rxReply (packet : RouteTask) (reply : AodvPduReply)
  | rxHello (packet : RouteTask) (reply : AodvPduReply)
  | rxError (packet : RouteTask) (errpdu : AodvPduError)
  | neighDelete (ip : U32)
  | routeLookup (destIp : U32)
  | routeFlush

def Handler.run (conf : EngineConf) (env : Env) (e : RouteEngine) : Handler → Option RouteEngine
  | .rxRequest packet request => (Maodv.rxRequest conf env packet request e).map Done.engine
  | .rxReply packet reply => (Maodv.rxReply conf env packet reply e).map Done.engine
  | .rxHello packet reply => (Maodv.rxHello conf env packet reply e).map Done.engine
  | .rxError packet errpdu => (Maodv.rxError env packet errpdu e).map Done.engine
  | .neighDelete ip => (Maodv.neighDelete conf env ip e).map Done.engine
  | .routeLookup destIp => some { e with routes := (routeFind env destIp e.routes).1 }
  | .routeFlush => some { e with routes := Maodv.routeFlush env e.routes }

/-- Every learned route that is still linked is as fresh as it was. -/
def SeqKept (t t' : RouteTable) : Prop :=
  ∀ p r r', (p, r) ∈ t.cells → r.selfRoute = false → (p, r') ∈ t'.cells →
    seqLessOrEqual r.seq r'.seq = true

theorem SeqKept.refl (t : RouteTable) : SeqKept t t := by
  intro p r r' hr _ hr'
  rw [HeapList.eq_of_mem hr hr']
  exact seqLessOrEqual_self _

/-! ## Entries on their way through a handler -/

theorem Worn.seqLessOrEqual {r r' : MeshRoute} (h : Worn env r r') :
    seqLessOrEqual r.seq r'.seq = true := by
  rcases h with rfl | ⟨_, _, rfl⟩
  · exact seqLessOrEqual_self _
  · unfold routeExpire
    split
    · exact seqLessOrEqual_self _
    · exact seqLessOrEqual_succ _

theorem ageRoute_seq {r : MeshRoute} (h : ageRoute env r ≠ r) :
    (ageRoute env r).seq = r.seq + 1 := by
  unfold ageRoute at h ⊢
  split_ifs at h ⊢
  · unfold routeExpire at h ⊢
    split at h
    · exact absurd rfl h
    · rfl
  · exact absurd rfl h

theorem ageRoute_of_lifetime {r : MeshRoute} (h : r.lifetime = env.now + activeRouteTimeout) :
    ageRoute env r = r := by
  have ht : timeBefore r.lifetime env.now = false := by
    rw [h]
    exact timeBefore_add env.now (k := 3000) (by norm_num)
  simp [ageRoute, ht]

/-- The number is the entry's own, aged at most once; what is not the entry
itself is not due for ageing. -/
def Kin (env : Env) (r r' : MeshRoute) : Prop :=
  (r' = r ∨ ageRoute env r' = r') ∧ (r'.seq = r.seq ∨ r'.seq = (ageRoute env r).seq)

namespace Kin

variable {r₀ r r' : MeshRoute}

theorem refl (r : MeshRoute) : Kin env r r := ⟨.inl rfl, .inl rfl⟩

theorem aged (h : Kin env r₀ r) (ha : Aged env r r') : Kin env r₀ r' := by
  obtain ⟨rfl | hsettled, hs⟩ := h
  · rcases ha with rfl | rfl
    · exact .refl _
    · exact ⟨.inr (ageRoute_idem r), .inr rfl⟩
  · have hr : r' = r := by
      rcases ha with rfl | rfl
      · rfl
      · exact hsettled
    exact hr ▸ ⟨.inr hsettled, hs⟩

theorem of_aged (ha : Aged env r₀ r) (h : Kin env r r') : Kin env r₀ r' := by
  rcases ha with rfl | rfl
  · exact h
  · obtain ⟨hset, hs⟩ := h
    rw [ageRoute_idem, or_self] at hs
    refine ⟨.inr ?_, .inr hs⟩
    rcases hset with rfl | hset
    · exact ageRoute_idem r₀
    · exact hset

theorem seqLessOrEqual (h : Kin env r r') : seqLessOrEqual r.seq r'.seq = true := by
  rcases h.2 with hs | hs
  · rw [hs]; exact seqLessOrEqual_self _
  · rw [hs]; exact (worn_ageRoute r).seqLessOrEqual

theorem seq_eq (h : Kin env r r') (hset : ageRoute env r = r) : r'.seq = r.seq := by
  rcases h.2 with hs | hs
  · exact hs
  · rw [hs, hset]

end Kin

/-- Every cell of `t` is still linked in `t'`, and learned routes are kin. -/
def KinTable (env : Env) (t t' : RouteTable) : Prop :=
  ∀ p r, (p, r) ∈ t.cells → ∃ r', (p, r') ∈ t'.cells ∧ r'.selfRoute = r.selfRoute ∧
    (r.selfRoute = false → Kin env r r')

namespace KinTable

variable {t₀ t t' : RouteTable}

theorem refl (t : RouteTable) : KinTable env t t := fun _ r hr => ⟨r, hr, rfl, fun _ => .refl r⟩

theorem aged (h : KinTable env t₀ t) (ha : AgedTable env t t') : KinTable env t₀ t' := by
  intro p r₀ hr₀
  obtain ⟨r, hr, hself, hk⟩ := h p r₀ hr₀
  obtain ⟨r', hr', hrr⟩ := ha.mem_right hr
  exact ⟨r', hr', hrr.worn.selfRoute.trans hself, fun hs => (hk hs).aged hrr⟩

theorem push (h : KinTable env t₀ t) (r : MeshRoute) : KinTable env t₀ (t.push r) := by
  intro p r₀ hr₀
  obtain ⟨r', hr', hrest⟩ := h p r₀ hr₀
  exact ⟨r', List.mem_cons_of_mem _ hr', hrest⟩

/-- A write keeps kinship if it keeps the flag and, on learned routes, the number
and settles the entry. -/
theorem modify (h : KinTable env t₀ t) {q : ℕ} {f : MeshRoute → MeshRoute}
    (hself : ∀ r, (f r).selfRoute = r.selfRoute)
    (hf : ∀ r, (q, r) ∈ t.cells → r.selfRoute = false →
      (f r).seq = r.seq ∧ ageRoute env (f r) = f r) :
    KinTable env t₀ (t.modify q f) := by
  intro p r₀ hr₀
  obtain ⟨r, hr, hs, hk⟩ := h p r₀ hr₀
  by_cases hpq : p = q
  · subst hpq
    refine ⟨f r, HeapList.mem_modify_self hr, (hself r).trans hs, fun hs₀ => ?_⟩
    obtain ⟨hseq, hset⟩ := hf r hr (hs.trans hs₀)
    refine ⟨.inr hset, ?_⟩
    rw [hseq]
    exact (hk hs₀).2
  · exact ⟨r, HeapList.mem_modify.mpr ⟨r, hr, by simp [hpq]⟩, hs, hk⟩

theorem answered {myRoute : ℕ} {request : AodvPduRequest} {b : Bool} (h : KinTable env t₀ t)
    (ha : Answered conf env myRoute request t t' b) : KinTable env t₀ t' := by
  cases ha with
  | silent => exact h
  | refreshed hout hg hf =>
      refine h.modify (fun r => ?_) fun r _ _ => ⟨?_, ageRoute_of_lifetime ?_⟩ <;>
        simp only [routeRefresh]
  | gatewayed hout hg hf hmy => exact h.push _
  | shadowed hout hg hf hmask hmy => exact h.push _
  | raised hf hself hs =>
      refine h.modify (fun _ => rfl) fun r hr hlearned => ?_
      rw [HeapList.eq_of_mem hr (firstRoute_mem hf)] at hlearned
      simp [hself] at hlearned
  | stands hf hself => exact h

theorem seqKept (h : KinTable env t t') : SeqKept t t' := by
  intro p r r' hr hself hr'
  obtain ⟨r'', hr'', -, hk⟩ := h p r hr
  rw [HeapList.eq_of_mem hr' hr'']
  exact (hk hself).seqLessOrEqual

/-- A write at `p` that sets the number to `seq`, on a table aged from `t₀` and
followed by changes among kin, keeps the numbers exactly if `seq` is not behind
the learned route at `p`. -/
theorem seqKept_iff {p : ℕ} {r : MeshRoute} {seq : U32} {f : MeshRoute → MeshRoute}
    (ha : AgedTable env t₀ t) (hr : (p, r) ∈ t₀.cells)
    (hf : ∀ r, (f r).seq = seq ∧ (f r).selfRoute = r.selfRoute)
    (hset : ∀ r, ageRoute env (f r) = f r ∨ t' = t.modify p f)
    (h : KinTable env (t.modify p f) t') :
    SeqKept t₀ t' ↔ (r.selfRoute = false → seqLessOrEqual r.seq seq = true) := by
  obtain ⟨r₁, hr₁, hrr₁⟩ := HeapList.Pointwise.mem_right ha hr
  have hw : (p, f r₁) ∈ (t.modify p f).cells := HeapList.mem_modify_self hr₁
  have hlearned : (f r₁).selfRoute = r.selfRoute := (hf r₁).2.trans hrr₁.worn.selfRoute
  obtain ⟨r', hr', hself', hk⟩ := h p _ hw
  have hseq : r.selfRoute = false → r'.seq = seq := by
    intro hs
    rcases hset r₁ with hset | rfl
    · rw [(hk (hlearned.trans hs)).seq_eq hset]
      exact (hf r₁).1
    · rw [HeapList.eq_of_mem hr' hw]
      exact (hf r₁).1
  constructor
  · intro hkept hs
    rw [← hseq hs]
    exact hkept p r r' hr hs hr'
  · intro hle q r₀ r₀' hr₀ hs hr₀'
    by_cases hqp : q = p
    · subst hqp
      obtain rfl := HeapList.eq_of_mem hr hr₀
      rw [HeapList.eq_of_mem hr₀' hr', hseq hs]
      exact hle hs
    · obtain ⟨r₂, hr₂, hrr₂⟩ := HeapList.Pointwise.mem_right ha hr₀
      have hr₂' : (q, r₂) ∈ (t.modify p f).cells :=
        HeapList.mem_modify.mpr ⟨r₂, hr₂, by simp [hqp]⟩
      obtain ⟨r₃, hr₃, -, hk₃⟩ := h q r₂ hr₂'
      rw [HeapList.eq_of_mem hr₀' hr₃]
      exact (Kin.of_aged hrr₂ (hk₃ (hrr₂.worn.selfRoute.trans hs))).seqLessOrEqual

end KinTable

/-! ## Updates -/

/-- The lookup inside the update has just expired the learned route for `ip`, and
`seq` lies half the circle ahead of the number this left. -/
def Leap (env : Env) (t : RouteTable) (ip seq : U32) : Prop :=
  ∃ p r, firstRoute t ip = some (p, r) ∧ r.selfRoute = false ∧ ageRoute env r ≠ r ∧
    seq = r.seq + 1 + 0x80000000

theorem updated_seqKept_iff {neighs : HeapList RouteNeigh} {ip hop : U32} {metric : U8} {seq : U32}
    {t₀ t₁ t₂ t' : RouteTable} (ha : AgedTable env t₀ t₁)
    (hent : firstRoute t₁ ip = (firstRoute t₀ ip).map fun c => (c.1, ageRoute env c.2))
    (hn : neighValid env hop neighs = true)
    (hup : Updated conf env neighs ip hop metric seq t₁ t₂) (hk : KinTable env t₂ t') :
    SeqKept t₀ t' ↔ ¬Leap env t₀ ip seq := by
  have hkin : KinTable env t₁ t' → SeqKept t₀ t' := fun h => by
    intro p r r' hr hself hr'
    obtain ⟨r₁, hr₁, hrr₁⟩ := HeapList.Pointwise.mem_right ha hr
    obtain ⟨r₂, hr₂, -, hk₂⟩ := h p r₁ hr₁
    rw [HeapList.eq_of_mem hr' hr₂]
    exact (Kin.of_aged hrr₁ (hk₂ (hrr₁.worn.selfRoute.trans hself))).seqLessOrEqual
  cases hup with
  | unheard hn' => simp [hn] at hn'
  | noMemory hf hm =>
      refine iff_of_true (hkin hk) ?_
      rintro ⟨p, r, hr, -⟩
      simp [hent, hr] at hf
  | installed hn' hf hm =>
      refine iff_of_true (hkin fun p r hr => hk p r (List.mem_cons_of_mem _ hr)) ?_
      rintro ⟨p, r, hr, -⟩
      simp [hent, hr] at hf
  | @refused p r₁ hf hs =>
      refine iff_of_true (hkin hk) ?_
      rintro ⟨p', r, hr, -, hage, rfl⟩
      obtain ⟨rfl, rfl⟩ : p' = p ∧ ageRoute env r = r₁ := by simpa [hent, hr] using hf
      -- half the circle ahead counts as newer, so it is not refused
      rw [ageRoute_seq hage] at hs
      have hneg : r.seq + 1 - (r.seq + 1 + 0x80000000) = (0x80000000 : U32) := by bv_omega
      simp only [seqGreater, SerialOrder.ahead, hneg] at hs
      exact absurd hs (by decide)
  | @accepted p r₁ hn' hf hs =>
      obtain ⟨⟨p', r⟩, hr, heq⟩ := Option.map_eq_some_iff.mp (hent.symm.trans hf)
      obtain ⟨rfl, rfl⟩ := Prod.mk.inj heq
      have hset : ∀ r, ageRoute env (routeAccept env hop metric seq r) =
          routeAccept env hop metric seq r :=
        fun r => ageRoute_of_lifetime (by simp only [routeAccept])
      have hwrite : ∀ r, (routeAccept env hop metric seq r).seq = seq ∧
          (routeAccept env hop metric seq r).selfRoute = r.selfRoute := fun r => ⟨rfl, rfl⟩
      rw [KinTable.seqKept_iff ha (firstRoute_mem hr) hwrite (fun r => .inl (hset r)) hk]
      constructor
      · rintro hle ⟨q, r₂, hr₂, hself, hage, hq⟩
        obtain ⟨rfl, rfl⟩ : p' = q ∧ r = r₂ := by simpa [hr] using hr₂
        rw [ageRoute_seq hage] at hs
        exact (seqLessOrEqual_of_newer_succ hs).mp (hle hself) hq
      · intro hleap hself
        by_cases hage : ageRoute env r = r
        · rw [hage] at hs
          exact seqLessOrEqual_of_newer hs
        · rw [ageRoute_seq hage] at hs
          rw [seqLessOrEqual_of_newer_succ hs]
          exact fun hq => hleap ⟨p', r, hr, hself, hage, hq⟩

/-! ## All handlers -/

/-- The HELLO does not carry a number behind the learned route to its sender. -/
def HelloForward (env : Env) (e : RouteEngine) (reply : AodvPduReply) : Prop :=
  neighFind reply.dstIp e.neighs ≠ none ∨ env.mem .neigh = true →
    ∀ p r, firstRoute e.routes reply.dstIp = some (p, r) → r.selfRoute = false →
      seqLessOrEqual r.seq reply.dstSeq = true

def Handler.Forward (env : Env) (e : RouteEngine) : Handler → Prop
  | .rxRequest packet request =>
      RequestPasses env packet request e → ¬Leap env e.routes request.srcIp request.srcSeq
  | .rxReply packet reply =>
      if reply.srcIp = reply.dstIp then HelloForward env e reply
      else neighValid env packet.srcIp e.neighs = true →
        ¬Leap env e.routes reply.dstIp reply.dstSeq
  | .rxHello _ reply => HelloForward env e reply
  | .rxError packet errpdu => ∀ errDest p r,
      errorHit packet.srcIp e.routes (errpdu.dests.take errpdu.dstCount.toNat) =
          some (errDest, p, r) →
        seqLessOrEqual r.seq errDest.seq = true
  | .neighDelete _ => True
  | .routeLookup _ => True
  | .routeFlush => True

theorem AgedTable.seqKept {t t' : RouteTable} (h : AgedTable env t t') : SeqKept t t' :=
  ((KinTable.refl t).aged h).seqKept

theorem rxHello_seqKept_iff {packet : RouteTask} {reply : AodvPduReply} {e : RouteEngine}
    {done : Done} (h : rxHello conf env packet reply e = some done) :
    SeqKept e.routes done.engine.routes ↔ HelloForward env e reply := by
  obtain ⟨hn, hm, rfl⟩ | ⟨t, dev, h⟩ := rxHello_cases h
  · exact iff_of_true (.refl _) fun hor => by simp [hn, hm] at hor
  · have hroutes := h.routes
    cases hent : firstRoute e.routes reply.dstIp with
    | none =>
        rw [h.found, hent] at hroutes
        simp only [Option.map_none] at hroutes
        refine iff_of_true ?_ fun _ p r hr => by simp [hent] at hr
        rw [hroutes]
        exact (((KinTable.refl _).aged h.aged).push _).seqKept
    | some c =>
        obtain ⟨p, r⟩ := c
        rw [h.found, hent] at hroutes
        simp only [Option.map_some] at hroutes
        have hwrite : ∀ r, (routeHello env dev reply.dstIp reply r).seq = reply.dstSeq ∧
            (routeHello env dev reply.dstIp reply r).selfRoute = r.selfRoute :=
          fun r => ⟨rfl, rfl⟩
        rw [hroutes, KinTable.seqKept_iff h.aged (firstRoute_mem hent) hwrite (fun _ => .inr rfl)
          (KinTable.refl _)]
        constructor
        · intro hle _ p' r' hr' hself
          obtain ⟨rfl, rfl⟩ : p = p' ∧ r = r' := by simpa [hent] using hr'
          exact hle hself
        · intro hfwd
          exact hfwd h.recorded p r hent

theorem rxError_seqKept_iff {packet : RouteTask} {errpdu : AodvPduError} {e : RouteEngine}
    {done : Done} (h : rxError env packet errpdu e = some done) :
    SeqKept e.routes done.engine.routes ↔ Handler.Forward env e (.rxError packet errpdu) := by
  obtain ⟨t', rfl, hloop⟩ := rxError_cases h
  obtain ⟨hhit, ha⟩ | ⟨errDest, p, r, t, hhit, hr, hself, ha, rfl⟩ :=
    rxErrorLoop_cases (.refl _) hloop
  · exact iff_of_true ha.seqKept fun errDest p r hr => by simp [hhit] at hr
  · have hwrite : ∀ r : MeshRoute, ({ r with seq := errDest.seq } : MeshRoute).seq = errDest.seq ∧
        ({ r with seq := errDest.seq } : MeshRoute).selfRoute = r.selfRoute := fun r => ⟨rfl, rfl⟩
    rw [KinTable.seqKept_iff ha hr hwrite (fun _ => .inr rfl) (KinTable.refl _)]
    simp [Handler.Forward, hhit, hself]

theorem neighDelete_seqKept {ip : U32} {e : RouteEngine} {done : Done}
    (h : neighDelete conf env ip e = some done) : SeqKept e.routes done.engine.routes := by
  obtain rfl | ⟨t, h⟩ := neighDelete_cases h
  · exact (.refl _)
  · have hworn : SeqKept e.routes t := by
      intro p r r' hr _ hr'
      obtain ⟨r'', hr'', hrr⟩ := h.aged.mem_right hr
      rw [HeapList.eq_of_mem hr' hr'']
      exact hrr.seqLessOrEqual
    rcases h.routes with heq | ⟨q, r₁, hr₁, -, hv, heq⟩ | ⟨q, r₁, -, -, -, heq⟩
    · rwa [heq]
    · intro p r r' hr hself hr'
      rw [heq] at hr'
      obtain ⟨r₂, hr₂, rfl⟩ := HeapList.mem_modify.mp hr'
      split_ifs with hpq
      · -- the entry is still valid, so it was not expired before
        subst hpq
        obtain rfl := HeapList.eq_of_mem hr₂ (firstRoute_mem hr₁)
        obtain ⟨r₀, hr₀, hrr⟩ := h.aged.mem_left hr₂
        obtain rfl := HeapList.eq_of_mem hr hr₀
        exact (hrr.trans (.inr ⟨hrr.selfRoute.trans hself, hv, rfl⟩)).seqLessOrEqual
      · exact hworn p r r₂ hr hself hr₂
    · intro p r r' hr hself hr'
      rw [heq] at hr'
      exact hworn p r r' hr hself (HeapList.mem_erase.mp hr').1

theorem routeFlush_seqKept (t : RouteTable) : SeqKept t (routeFlush env t) := by
  obtain ⟨t', hw, hsub, -⟩ := routeFlush_cases env t
  intro p r r' hr _ hr'
  obtain ⟨r₀, hr₀, hrr⟩ := hw.mem_left hr'
  rw [HeapList.eq_of_mem hr (hsub _ hr₀)]
  exact hrr.seqLessOrEqual

/-- A handler keeps the sequence numbers of learned routes exactly if its message
carries none that lies behind. -/
theorem handler_seqKept_iff (handler : Handler) {e e' : RouteEngine}
    (h : handler.run conf env e = some e') :
    SeqKept e.routes e'.routes ↔ handler.Forward env e := by
  cases handler with
  | rxRequest packet request =>
      obtain ⟨done, hdone, rfl⟩ := Option.map_eq_some_iff.mp h
      obtain ⟨hp, -, t, ha, heq, -⟩ | ⟨t₁, t₂, t₃, t₄, b, tr⟩ := rxRequest_cases hdone
      · rw [heq]
        exact iff_of_true ha.seqKept fun hp' => absurd hp' hp
      · have hk : KinTable env t₂ done.engine.routes :=
          ((((KinTable.refl t₂).aged tr.aged').answered tr.answer).aged tr.aged'')
        rw [updated_seqKept_iff tr.aged tr.reverse tr.passes.2.2 tr.updated hk]
        exact ⟨fun hl _ => hl, fun hl => hl tr.passes⟩
  | rxReply packet reply =>
      obtain ⟨done, hdone, rfl⟩ := Option.map_eq_some_iff.mp h
      obtain ⟨hsame, d, hd, rfl⟩ | ⟨hne, hn, rfl⟩ | ⟨t₁, t₂, tr⟩ := rxReply_cases hdone
      · simpa [Handler.Forward, hsame] using rxHello_seqKept_iff hd
      · refine iff_of_true (.refl _) ?_
        simp [Handler.Forward, hne, hn]
      · rw [updated_seqKept_iff tr.aged tr.found tr.heard tr.updated
          ((KinTable.refl t₂).aged tr.aged')]
        simp [Handler.Forward, tr.notHello, tr.heard]
  | rxHello packet reply =>
      obtain ⟨done, hdone, rfl⟩ := Option.map_eq_some_iff.mp h
      exact rxHello_seqKept_iff hdone
  | rxError packet errpdu =>
      obtain ⟨done, hdone, rfl⟩ := Option.map_eq_some_iff.mp h
      exact rxError_seqKept_iff hdone
  | neighDelete ip =>
      obtain ⟨done, hdone, rfl⟩ := Option.map_eq_some_iff.mp h
      exact iff_of_true (neighDelete_seqKept hdone) trivial
  | routeLookup destIp =>
      obtain rfl := Option.some.inj h
      exact iff_of_true (routeFind_aged env destIp e.routes).seqKept trivial
  | routeFlush =>
      obtain rfl := Option.some.inj h
      exact iff_of_true (routeFlush_seqKept e.routes) trivial

/-- `10.0.0.1` after a HELLO and a RREQ of `10.0.0.2`. A node numbers its
requests, while its HELLOs go on to carry the number of another entry. -/
def heardRequest : Option RouteEngine :=
  Machine.finish (taskStep (lanNode true 0x0a000001).1)
    [(.plenty 100, lanTask 100 (lanDev 0x0a000001) 0x0a000002 (.reply (helloPdu 0x0a000002 1))),
     (.plenty 200, lanTask 200 (lanDev 0x0a000001) 0x0a000002
        (.request (requestPdu 0x0a000002 2 2 0x0a000009 0)))]
    (lanNode true 0x0a000001).2

/-- The next HELLO takes the learned route from number two back to one. -/
theorem hello_lowers_seq : ∃ e e', heardRequest = some e ∧
    Handler.run (lanNode true 0x0a000001).1 (.plenty 300) e
      (.rxHello (lanTask 300 (lanDev 0x0a000001) 0x0a000002 (.reply (helloPdu 0x0a000002 1)))
        (helloPdu 0x0a000002 1)) = some e' ∧
    ¬SeqKept e.routes e'.routes := by
  refine ⟨_, _, rfl, rfl, fun h => ?_⟩
  have hle := h 2 _ _ (HeapList.get?_eq_some.mp rfl) rfl (HeapList.get?_eq_some.mp rfl)
  exact absurd hle (by decide)

/-- With the number of the request in it, the same HELLO keeps the table. -/
theorem hello_keeps_newer_seq : ∃ e e', heardRequest = some e ∧
    Handler.run (lanNode true 0x0a000001).1 (.plenty 300) e
      (.rxHello (lanTask 300 (lanDev 0x0a000001) 0x0a000002 (.reply (helloPdu 0x0a000002 2)))
        (helloPdu 0x0a000002 2)) = some e' ∧
    SeqKept e.routes e'.routes := by
  have hseq : heardRequest.bind (fun e => (firstRoute e.routes 0x0a000002).map fun c => c.2.seq) =
      some 2 := by decide
  have hkept : ∀ e e', heardRequest = some e → Handler.run (lanNode true 0x0a000001).1
      (.plenty 300) e (.rxHello (lanTask 300 (lanDev 0x0a000001) 0x0a000002
        (.reply (helloPdu 0x0a000002 2))) (helloPdu 0x0a000002 2)) = some e' →
      SeqKept e.routes e'.routes := by
    intro e e' he hrun
    refine (handler_seqKept_iff _ hrun).mpr fun _ p r hr _ => ?_
    have hr' : firstRoute e.routes 0x0a000002 = some (p, r) := hr
    rw [he, Option.bind_some, hr'] at hseq
    have hrseq : r.seq = 2 := Option.some.inj hseq
    rw [hrseq]
    decide
  exact ⟨_, _, rfl, rfl, hkept _ _ rfl rfl⟩

end Maodv
end WirelessMesh
