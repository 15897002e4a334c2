import WirelessMesh.Lib.SequencedRouting
import WirelessMesh.Maodv.NodeInvariant

/-!
# When the routes of a network have no loop

The network refines the next-hop tables of `SequencedRouting` as long as every
step respects the numbers its node has held: the peak of a node for an address is
what the run so far says it has held, and the advertisements are the datagrams in
the air. Without that condition the engines can build a loop.
-/

namespace WirelessMesh
namespace Maodv

open Routes SequencedRouting

variable {Node : Type*} {D : Deployment Node}

/-! ## Addresses -/

theorem boot_addrs (env : Env) (supportGateway : Bool) (localIp localMask : U32)
    (devs : List RouteDev) (a : U32) :
    a ∈ (boot env supportGateway localIp localMask devs).1.addrs ↔
      a ∈ localIp :: devs.map (·.ip) := by
  have hall : ∀ (devs : List RouteDev) (s : EngineConf × RouteEngine),
      a ∈ (devs.foldl (fun s dev => routeRegisterDevice env dev s) s).1.addrs ↔
        a ∈ s.1.addrs ∨ a ∈ devs.map (·.ip) := by
    intro devs
    induction devs with
    | nil => simp
    | cons dev devs ih =>
        intro s
        rw [List.foldl_cons, ih]
        simp only [routeRegisterDevice, EngineConf.addrs, List.map_cons, List.mem_cons]
        tauto
  rw [boot, hall]
  simp [engineInit, EngineConf.addrs]

theorem Deployment.owns_unique (D : Deployment Node) (a : U32) (n m : Node) (hn : D.Owns n a)
    (hm : D.Owns m a) : n = m :=
  D.unique a n m ((boot_addrs _ _ _ _ _ a).mp hn) ((boot_addrs _ _ _ _ _ a).mp hm)

/-! ## The network as next-hop tables -/

def Heard (σ : Net Node) (n : Node) (f : Frame) : Prop := ∃ m, m ≠ n ∧ (m, f) ∈ σ.air

structure AirOk (D : Deployment Node) (m : Node) (f : Frame) : Prop where
  src : D.Owns m f.srcIp
  request : ∀ request, f.pdu = .request request → request.srcIp ≠ request.dstIp
  hello : ∀ reply, f.pdu = .reply reply → reply.srcIp = reply.dstIp → D.Owns m reply.dstIp

/-- The network in state `σ`, reached through `past`, is an instance of `S`. -/
structure Linked (D : Deployment Node) (past : List (Net Node)) (σ : Net Node)
    (S : State Node U32) : Prop where
  nodes : ∀ n, NodeOk (D.conf n).addrs (Heard σ n) (σ.engine n)
  air : ∀ m f, (m, f) ∈ σ.air → AirOk D m f
  offers : ∀ m f, (m, f) ∈ σ.air → ∀ a ∈ advert f.pdu, S.offered m a.1 a.2.toNat
  sharp : ∀ n, ∀ c ∈ (σ.engine n).routes.cells, ¬D.Owns n c.2.ip →
    c.2.seq.toNat + 1 = S.peak n c.2.ip
  top : ∀ n d, ¬D.Owns n d → S.peak n d = 0 ∨
    ∃ σ' ∈ past, ∃ c ∈ (σ'.engine n).routes.cells, c.2.ip = d ∧ c.2.seq.toNat + 1 = S.peak n d
  next : ∀ n, ∀ c ∈ (σ.engine n).routes.cells, ¬D.Owns n c.2.ip → c.2.routeValid = true →
    S.next n c.2.ip = some c.2.nextHop

def bare : State Node U32 where
  next := fun _ _ => none
  peak := fun _ _ => 0
  stamp := fun _ _ => 0
  clock := 0
  offered := fun _ _ _ => False

theorem ordered_bare : Ordered D.Owns (bare : State Node U32) where
  past := fun _ _ => le_rfl
  backed := fun _ _ _ h => h.elim
  home := fun _ _ _ => rfl
  rises := fun _ _ _ _ h => by simp [bare] at h

theorem linked_start : Linked D [D.start] D.start bare := by
  have hboot : ∀ n, BootOk (D.booted n) := fun n => bootOk_boot _ _ _ _ _
  have hown : ∀ n, ∀ c ∈ (D.start.engine n).routes.cells, D.Owns n c.2.ip :=
    fun n c hc => ((hboot n).self c hc).2.2
  exact
    { nodes := fun n => (hboot n).nodeOk _
      air := by simp [Deployment.start]
      offers := by simp [Deployment.start]
      sharp := fun n c hc hnot => absurd (hown n c hc) hnot
      top := fun _ _ _ => .inl rfl
      next := fun n c hc hnot _ => absurd (hown n c hc) hnot }

section Step

variable {past : List (Net Node)} {σ σ' : Net Node} {S : State Node U32} {n : Node}

theorem Linked.peak_le (h : Linked D past σ S) {d : U32} {b : ℕ} (hd : ¬D.Owns n d)
    (hbelow : HeldBelow past n d b) : S.peak n d ≤ b := by
  rcases h.top n d hd with h0 | ⟨σ', hσ', c, hc, hip, hs⟩
  · omega
  · have hlt := hbelow σ' hσ' c hc hip
    omega

def Linked.base (h : Linked D past σ S) (hwrap : σ.NoWrap) (n : Node) :
    Base (D.conf n).addrs where
  routes := (σ.engine n).routes
  peak := S.peak n
  offer := fun d s hop => ∃ m f, (m, f) ∈ σ.air ∧ f.srcIp = hop ∧ (d, s) ∈ advert f.pdu
  sharp := h.sharp n
  bound := hwrap.1 n

theorem Linked.heardOk (h : Linked D past σ S) (hwrap : σ.NoWrap) {f : Frame}
    (hf : Heard σ n f) : HeardOk (h.base hwrap n) f := by
  obtain ⟨m, hne, hair⟩ := hf
  constructor
  · rintro ⟨d, s⟩ ha
    exact ⟨⟨m, f, hair, rfl, ha⟩, hwrap.2 (m, f) hair (d, s) ha⟩
  · exact (h.air m f hair).request
  · intro reply hpdu hsame hin
    exact hne (D.owns_unique _ _ _ ((h.air m f hair).hello reply hpdu hsame) hin)

/-- The next hop and the peak that a table gives for an address that is not the
node's own. -/
def hopAfter (own : List U32) (t : RouteTable) (d : U32) : Option U32 :=
  if d ∈ own then none
  else (firstRoute t d).bind fun c => if c.2.routeValid then some c.2.nextHop else none

def peakAfter (own : List U32) (peak : U32 → ℕ) (t : RouteTable) (d : U32) : ℕ :=
  if d ∈ own then peak d
  else match firstRoute t d with
    | some c => c.2.seq.toNat + 1
    | none => peak d

theorem peakAfter_of_mem {own : List U32} {my : ℕ} {t : RouteTable} (ht : Home own my t)
    {c : ℕ × MeshRoute} (hc : c ∈ t.cells) (hown : c.2.ip ∉ own) (peak : U32 → ℕ) :
    peakAfter own peak t c.2.ip = c.2.seq.toNat + 1 := by
  rw [peakAfter, if_neg hown]
  cases hf : firstRoute t c.2.ip with
  | none => exact absurd rfl (firstRoute_none hf hc)
  | some c' =>
      have heq := ht.distinct c hc c' (firstRoute_mem hf) (firstRoute_ip hf).symm hown
      rw [heq]

theorem hopAfter_of_mem {own : List U32} {my : ℕ} {t : RouteTable} (ht : Home own my t)
    {c : ℕ × MeshRoute} (hc : c ∈ t.cells) (hown : c.2.ip ∉ own) (hv : c.2.routeValid = true) :
    hopAfter own t c.2.ip = some c.2.nextHop := by
  rw [hopAfter, if_neg hown]
  cases hf : firstRoute t c.2.ip with
  | none => exact absurd rfl (firstRoute_none hf hc)
  | some c' =>
      have heq := ht.distinct c hc c' (firstRoute_mem hf) (firstRoute_ip hf).symm hown
      simp [← heq, hv]

theorem Linked.change (h : Linked D past σ S) (hwrap : σ.NoWrap) {done : Done}
    (hp : Progress (Heard σ n) (h.base hwrap n) done) (d : U32) :
    Change D.Owns S n d (hopAfter (D.conf n).addrs done.engine.routes d)
      (peakAfter (D.conf n).addrs (S.peak n) done.engine.routes d) := by
  by_cases hown : d ∈ (D.conf n).addrs
  · rw [hopAfter, peakAfter, if_pos hown, if_pos hown]
    exact .dropped le_rfl
  · cases hf : firstRoute done.engine.routes d with
    | none =>
        simp only [hopAfter, peakAfter, hown, hf, if_false, Option.bind_none]
        exact .dropped le_rfl
    | some c =>
        have hmem := firstRoute_mem hf
        obtain rfl : c.2.ip = d := firstRoute_ip hf
        have hfate := hp.fate c hmem hown
        have hpeak : S.peak n c.2.ip ≤ c.2.seq.toNat + 1 := hfate.peak_le hown
        rw [peakAfter_of_mem hp.ok.home hmem hown]
        by_cases hv : c.2.routeValid = true
        · rw [hopAfter_of_mem hp.ok.home hmem hown hv]
          cases hfate with
          | @kept p r₀ hr hip hseq hvalid hhop =>
              have hown₀ : ¬D.Owns n r₀.ip := by rwa [← hip]
              have hsharp : r₀.seq.toNat + 1 = S.peak n r₀.ip := h.sharp n _ hr hown₀
              have hnext : S.next n r₀.ip = some r₀.nextHop := h.next n _ hr hown₀ (hvalid ▸ hv)
              rw [hip, hseq, hhop, hsharp, ← hnext]
              exact .kept
          | retired hvalid _ => simp [hvalid] at hv
          | adopted hoffer _ hnew =>
              obtain ⟨m, f, hair, hsrc, ha⟩ := hoffer
              exact .adopted (h.offers m f hair _ ha) (hsrc ▸ (h.air m f hair).src) hnew
          | direct hhop _ _ => exact .direct (fun m hm => hhop ▸ hm) hpeak
        · have hhop : hopAfter (D.conf n).addrs done.engine.routes c.2.ip = none := by
            simp [hopAfter, hown, hf, hv]
          rw [hhop]
          exact .dropped hpeak

variable [DecidableEq Node]

def advance (D : Deployment Node) (S : State Node U32) (n : Node) (done : Done) :
    State Node U32 where
  next := fun m d => if m = n then hopAfter (D.conf n).addrs done.engine.routes d else S.next m d
  peak := fun m d =>
    if m = n then peakAfter (D.conf n).addrs (S.peak n) done.engine.routes d else S.peak m d
  stamp := fun m d =>
    if m = n then
      if peakAfter (D.conf n).addrs (S.peak n) done.engine.routes d = S.peak n d then S.stamp n d
      else S.clock + 1
    else S.stamp m d
  clock := S.clock + 1
  offered := fun m d s => S.offered m d s ∨
    (m = n ∧ ∃ f ∈ done.sent, ∃ a ∈ advert f.pdu, a.1 = d ∧ a.2.toNat = s)

theorem Linked.advance_step (h : Linked D past σ S) (hwrap : σ.NoWrap) {done : Done}
    (hp : Progress (Heard σ n) (h.base hwrap n) done) :
    Step D.Owns S (advance D S n done) n where
  others := by
    intro m hm d
    simp [advance, hm]
  change := by
    intro d
    simpa [advance] using h.change hwrap hp d
  stamped := by
    intro d
    simp [advance]
  tick := rfl
  home := by
    intro d hown
    simp only [advance, if_true]
    exact if_pos hown
  offers := by
    rintro m d s (hold | ⟨rfl, f, hf, a, ha, rfl, rfl⟩)
    · exact .inl hold
    · refine .inr ⟨rfl, ?_⟩
      rcases (hp.sent f hf).backed a ha with hown | ⟨c, hc, hip, hle⟩
      · exact .inl hown
      · by_cases hown : a.1 ∈ (D.conf m).addrs
        · exact .inl hown
        · right
          simp only [advance, if_true]
          rw [← hip] at hown ⊢
          rw [peakAfter_of_mem hp.ok.home hc hown]
          omega

theorem Linked.after (h : Linked D past σ S) (hwrap : σ.NoWrap) {done : Done}
    (hp : Progress (Heard σ n) (h.base hwrap n) done) :
    Linked D (σ.after n done :: past) (σ.after n done) (advance D S n done) where
  nodes := by
    intro m
    have hmono : ∀ f, Heard σ m f → Heard (σ.after n done) m f := by
      rintro f ⟨k, hk, hair⟩
      exact ⟨k, hk, List.mem_append_left _ hair⟩
    by_cases hm : m = n
    · subst hm
      simpa [Net.after] using hp.ok.mono hmono
    · simpa [Net.after, hm] using (h.nodes m).mono hmono
  air := by
    intro m f hair
    rcases List.mem_append.mp hair with hair | hair
    · exact h.air m f hair
    · obtain ⟨g, hg, heq⟩ := List.mem_map.mp hair
      obtain ⟨rfl, rfl⟩ := Prod.mk.inj heq
      have hok := hp.sent g hg
      exact ⟨hok.src, hok.request, hok.hello⟩
  offers := by
    intro m f hair a ha
    rcases List.mem_append.mp hair with hair | hair
    · exact .inl (h.offers m f hair a ha)
    · obtain ⟨g, hg, heq⟩ := List.mem_map.mp hair
      obtain ⟨rfl, rfl⟩ := Prod.mk.inj heq
      exact .inr ⟨rfl, g, hg, a, ha, rfl, rfl⟩
  sharp := by
    intro m c hc hown
    by_cases hm : m = n
    · subst hm
      simp only [Net.after, if_true] at hc
      simp only [advance, if_true]
      exact (peakAfter_of_mem hp.ok.home hc hown _).symm
    · simp only [Net.after, hm, if_false] at hc
      simpa [advance, hm] using h.sharp m c hc hown
  top := by
    intro m d hown
    by_cases hm : m = n
    · subst hm
      cases hf : firstRoute done.engine.routes d with
      | none =>
          have hpeak : (advance D S m done).peak m d = S.peak m d := by
            simp only [advance, peakAfter, hf, ite_self]
          rw [hpeak]
          rcases h.top m d hown with h0 | ⟨σ', hσ', hc⟩
          · exact .inl h0
          · exact .inr ⟨σ', List.mem_cons_of_mem _ hσ', hc⟩
      | some c =>
          right
          have hmem := firstRoute_mem hf
          obtain rfl : c.2.ip = d := firstRoute_ip hf
          refine ⟨_, List.mem_cons_self, c, by simpa [Net.after] using hmem, rfl, ?_⟩
          simp only [advance, if_true]
          exact (peakAfter_of_mem hp.ok.home hmem hown _).symm
    · simp only [advance, hm, if_false]
      rcases h.top m d hown with h0 | ⟨σ', hσ', hc⟩
      · exact .inl h0
      · exact .inr ⟨σ', List.mem_cons_of_mem _ hσ', hc⟩
  next := by
    intro m c hc hown hv
    by_cases hm : m = n
    · subst hm
      simp only [Net.after, if_true] at hc
      simp only [advance, if_true]
      exact hopAfter_of_mem hp.ok.home hc hown hv
    · simp only [Net.after, hm, if_false] at hc
      simpa [advance, hm] using h.next m c hc hown hv

/-- A step of the network is the passing of time or the progress of one node. -/
theorem Linked.progress (h : Linked D past σ S) {act : Act Node} (hfresh : Fresh D past σ act)
    (hstep : σ.step D act = some σ') :
    (∃ now, σ' = { σ with now := now }) ∨
      ∃ (n : Node) (done : Done) (hwrap : σ.NoWrap),
        σ' = σ.after n done ∧ Progress (Heard σ n) (h.base hwrap n) done := by
  cases act with
  | tick ms =>
      obtain rfl := Option.some.inj hstep
      exact .inl ⟨_, rfl⟩
  | output n mem stale daddr =>
      obtain rfl := Option.some.inj hstep
      exact .inr ⟨n, _, hfresh, rfl, .output rfl (h.nodes n) rfl daddr⟩
  | receive n mem stale dev i =>
      obtain ⟨⟨m, f⟩, hget, hstep⟩ := Option.bind_eq_some_iff.mp hstep
      simp only at hstep
      split_ifs at hstep with hguard
      obtain rfl := Option.some.inj hstep
      simp only [ne_eq, Bool.and_eq_true, decide_eq_true_eq] at hguard
      obtain ⟨⟨⟨hne, -⟩, -⟩, hmsg⟩ := hguard
      have hheard : Heard σ n f := ⟨m, hne, List.mem_of_getElem? hget⟩
      exact .inr ⟨n, _, hfresh, rfl, .input (h.nodes n) rfl hheard hmsg dev⟩
  | signal n =>
      obtain rfl := Option.some.inj hstep
      exact .inr ⟨n, _, hfresh, rfl, .signal (h.nodes n) rfl⟩
  | work n mem stale =>
      obtain ⟨done, hk, rfl⟩ := Option.map_eq_some_iff.mp hstep
      refine .inr ⟨n, done, hfresh.1, rfl, ?_⟩
      exact .kthread rfl (h.nodes n) rfl (fun f hf => h.heardOk hfresh.1 hf)
        (fun d b hd hb => h.peak_le hd hb) hfresh.2 hk

def Refines (D : Deployment Node) (s : History Node) : Prop :=
  ∃ S, Linked D (s.1 :: s.2) s.1 S ∧ Ordered D.Owns S

theorem Refines.step {act : Act Node} {s s' : History Node} (h : Refines D s)
    (hfresh : FreshStep D act s) (hstep : Net.record D act s = some s') : Refines D s' := by
  obtain ⟨S, hL, hO⟩ := h
  obtain ⟨σ', hσ', rfl⟩ := Option.map_eq_some_iff.mp hstep
  obtain ⟨now, rfl⟩ | ⟨n, done, hwrap, rfl, hp⟩ := hL.progress hfresh hσ'
  · refine ⟨S, ?_, hO⟩
    exact
      { nodes := hL.nodes
        air := hL.air
        offers := hL.offers
        sharp := hL.sharp
        top := by
          intro m d hown
          rcases hL.top m d hown with h0 | ⟨σ', hσ', hc⟩
          · exact .inl h0
          · exact .inr ⟨σ', List.mem_cons_of_mem _ hσ', hc⟩
        next := hL.next }
  · exact ⟨_, hL.after hwrap hp, hO.step D.owns_unique (hL.advance_step hwrap hp)⟩

/-- In every run whose steps respect the numbers held, no chain of valid learned
routes for one destination comes back to a node it has left. -/
theorem loop_free {D : Deployment Node} {acts : List (Act Node)} {s : History Node}
    (hfresh : Machine.Throughout (Net.record D) (FreshStep D) acts (D.start, []))
    (hvisits : Machine.Visits (Net.record D) (D.start, []) acts s) (d : U32) (n : Node) :
    ¬Relation.TransGen (s.1.Hop D d) n n := by
  have hstart : Refines D (D.start, []) := ⟨bare, linked_start, ordered_bare⟩
  obtain ⟨S, hL, hO⟩ := hvisits.invariant_of_throughout Refines.step hfresh hstart
  have hhop : ∀ k m, s.1.Hop D d k m → Hop D.Owns S d k m := by
    rintro k m ⟨c, hc, rfl, hv, hself, hm⟩
    have hown : ¬D.Owns k c.2.ip := by
      intro hown
      have htrue := ((hL.nodes k).home.self_iff c hc).mpr hown
      simp [hself] at htrue
    exact ⟨c.2.nextHop, hL.next k c hc hown hv, hm⟩
  intro hloop
  exact hO.acyclic d n (Relation.TransGen.mono hhop n n hloop)

end Step

/-! ## Three nodes on one subnet -/

def lanIp (n : Fin 3) : U32 := 0x0a000001 + BitVec.ofNat 32 n.val

def trio : Deployment (Fin 3) where
  supportGateway := fun _ => true
  localIp := lanIp
  localMask := fun _ => 0xffffff00
  devs := fun n => [lanDev (lanIp n)]
  loaded := fun _ => .plenty 0
  unique := by
    intro a n m hn hm
    simp only [List.map_cons, List.map_nil, List.mem_cons, List.not_mem_nil, or_false, or_self,
      lanDev] at hn hm
    subst hn
    revert n m
    decide

def beacon (n : Fin 3) : List (Act (Fin 3)) :=
  let env := Env.plenty 0
  [.signal n, .work n env.mem env.stale, .work n env.mem env.stale]

/-- The node receives the `i`th datagram of the run and works on it. -/
def hear (n : Fin 3) (i : ℕ) : List (Act (Fin 3)) :=
  let env := Env.plenty 0
  [.receive n env.mem env.stale (lanDev (lanIp n)) i, .work n env.mem env.stale]

/-- All nodes send a HELLO, node 0 hears both others and node 1 hears node 0. Then
node 2 looks for an address that nobody has; node 0 and then node 1 pass the
request on, and both learn a route to node 2. -/
def lookup : List (Act (Fin 3)) :=
  let env := Env.plenty 0
  .tick 10000 :: beacon 0 ++ beacon 1 ++ beacon 2 ++ hear 0 2 ++ hear 0 1 ++ hear 1 0 ++
    .output 2 env.mem env.stale 0x0a000009 :: hear 0 3 ++ hear 1 4

/-- The HELLO of node 2 arrives once more at node 0 and takes its number back.
After the record of the request has run out, so does the copy of the request that
node 1 sent. -/
def echo : List (Act (Fin 3)) := .tick 1000 :: hear 0 2 ++ .tick 700 :: hear 0 5

theorem loop_free_lookup :
    Machine.Throughout (Net.record trio) (FreshStep trio) lookup (trio.start, []) ∧
    ∃ s, Machine.Visits (Net.record trio) (trio.start, []) lookup s ∧
      (s.1.Hop trio (lanIp 2) 1 0 ∧ s.1.Hop trio (lanIp 2) 0 2) ∧
      ∀ d n, ¬Relation.TransGen (s.1.Hop trio d) n n := by
  have hfresh : Machine.Throughout (Net.record trio) (FreshStep trio) lookup (trio.start, []) := by
    decide +kernel
  obtain ⟨s, hvisits, hhops⟩ : ∃ s, Machine.Visits (Net.record trio) (trio.start, []) lookup s ∧
      s.1.Hop trio (lanIp 2) 1 0 ∧ s.1.Hop trio (lanIp 2) 0 2 :=
    Machine.exists_visits (by decide +kernel)
  exact ⟨hfresh, s, hvisits, hhops, loop_free hfresh hvisits⟩

/-- Nothing is forged and no number wraps, but node 0 ends up routing to node 2
through node 1, and node 1 through node 0. -/
theorem loop_after_echo :
    Machine.Throughout (Net.record trio) (fun _ s => s.1.NoWrap) (lookup ++ echo)
      (trio.start, []) ∧
    ∃ s, Machine.Visits (Net.record trio) (trio.start, []) (lookup ++ echo) s ∧ s.1.NoWrap ∧
      Relation.TransGen (s.1.Hop trio (lanIp 2)) 0 0 := by
  refine ⟨by decide +kernel, ?_⟩
  obtain ⟨s, hvisits, hwrap, hout, hback⟩ :
      ∃ s, Machine.Visits (Net.record trio) (trio.start, []) (lookup ++ echo) s ∧ s.1.NoWrap ∧
        s.1.Hop trio (lanIp 2) 0 1 ∧ s.1.Hop trio (lanIp 2) 1 0 :=
    Machine.exists_visits (by decide +kernel)
  exact ⟨s, hvisits, hwrap, .tail (.single hout) hback⟩

end Maodv
end WirelessMesh
