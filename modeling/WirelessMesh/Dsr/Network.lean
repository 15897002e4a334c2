import Mathlib.Logic.Function.Basic
import WirelessMesh.Dsr.Receive
import WirelessMesh.Lib.Runs

/-!
# A mesh of nodes with dynamic source routing

Every host runs the module. What a host has sent stays in the air and may be heard by any host
it has a link to, at any later time, any number of times or never, so that a link stands for one
that is up at times, and one of a host with itself for its loopback device; timers and packets of
the hosts' own, also for the broadcast address, come in between in any order. In a mesh of up to
sixteen hosts no function of the module writes past an entry of its tables or runs past the end
of one, while no broadcast address stands behind a list that `add_forward_route` reads beyond;
every request and every reply in the air lists a way along links that passes no host twice; a
packet with a source route has come along it, hop by hop; and a host is handed nothing but what
its source sent to it, or fragments of that.
-/

namespace WirelessMesh.Dsr

variable {β : Type*} {S : Addr → Addr → Data β → Prop} {M : Mesh} {a : Addr} {p : Packet β}
  {n : Node β}

/-! ### Packets of the host's own and timers -/

theorem ne_zero_of_specialAddr {x : Addr} (h : ¬specialAddr x = true) : x ≠ 0 := by
  rintro rfl
  exact h (by decide)

theorem sendQAdd_ok {fwdaddr : Addr} (hn : n.Ok M S a) (hw : Waiting.Ok M S a ⟨p, fwdaddr⟩) :
    (sendQAdd p fwdaddr n).Ok M S a := by
  rw [sendQAdd]
  split
  · have htail : ∀ w ∈ n.sendQ.tail, w.Ok M S a := fun w hmem =>
      hn.sendQ w (List.mem_of_mem_tail hmem)
    exact { hn with sendQ := Lists.forall_mem_snoc htail hw }
  · exact { hn with sendQ := Lists.forall_mem_snoc hn.sendQ hw }

theorem sendTo_ok {fwdaddr : Addr} (hn : n.Ok M S a) (ha : a ∈ M.hosts)
    (hw : Waiting.Ok M S a ⟨p, fwdaddr⟩) (hzero : fwdaddr ≠ 0) (now jiffies : ℕ) :
    ∃ n', sendTo (M.host a) now jiffies p fwdaddr n = some n' ∧ n'.Ok M S a := by
  obtain ⟨hroom, hfound⟩ := lookupRoute_room hn.cache now fwdaddr
  have hcache : Node.Ok M S a { n with cache := (lookupRoute now fwdaddr n.cache).1 } :=
    { hn with cache := hroom }
  rw [sendTo]
  split
  · exact ⟨_, rfl, sendQAdd_ok (sendRtReq_ok hcache ha jiffies hzero) hw⟩
  · next rt hrt =>
      obtain ⟨hlen, hsegs, hrelays, hne⟩ := hfound rt hrt
      exact dsrSend_ok hcache ha hw hlen hsegs hrelays hne

theorem localOut_ok (hn : n.Ok M S a) (ha : a ∈ M.hosts) (hsaddr : p.saddr = a)
    (hdaddr : M.Subnet p.daddr) (hgives : p.Gives M S) (now jiffies : ℕ) :
    ∃ n', localOut (M.host a) now jiffies p n = some n' ∧ n'.Ok M S a := by
  rw [localOut]
  split
  · exact ⟨n, rfl, hn⟩
  · next htaken =>
      rw [Mesh.host_nextHop (Mesh.subnet_host ha) hdaddr, Option.elim_some]
      have hzero : p.daddr ≠ 0 :=
        ne_zero_of_specialAddr fun h => htaken (.inr (.inr h))
      exact sendTo_ok hn ha ⟨hsaddr, hdaddr, rfl, hgives⟩ hzero now jiffies

theorem failedHop_isSome {u : Unacked β} (ha : a ∈ M.hosts) (hu : u.packet.Held M) (segsLeft : ℕ)
    (addr : List Addr) : ∃ hop, failedHop (M.host a) u segsLeft addr = some hop := by
  rw [failedHop, Mesh.host_subnet (Mesh.subnet_host ha) hu.daddr]
  split <;> exact ⟨_, rfl⟩

theorem ackTimeout_ok {k : ℕ} (hn : n.Ok M S a) (ha : a ∈ M.hosts) (hk : k < n.rxmtQ.length)
    (now : ℕ) : ∃ n', ackTimeout (M.host a) now k n = some n' ∧ n'.Ok M S a := by
  have hu := hn.rxmtQ _ (List.getElem_mem hk)
  obtain ⟨segsLeft, addr, hsrc, hlen, hbcast⟩ := hu.srcRt
  obtain ⟨hop, hhop⟩ := failedHop_isSome ha hu segsLeft addr
  rw [ackTimeout, List.getElem?_eq_getElem hk, Option.bind_some, sendRtErr, hsrc, Option.bind_some,
    hhop, Option.map_some]
  refine ⟨_, rfl, ?_⟩
  have hremove : Node.Ok M S a { n with
      rxmtQ := n.rxmtQ.eraseIdx k, cache := removeRoute now a a hop n.cache } :=
    { hn with
      rxmtQ := fun u hmem => hn.rxmtQ u (List.mem_of_mem_eraseIdx hmem)
      cache := removeRoute_room hn.cache _ _ _ }
  dsimp only
  split
  · exact hremove
  · apply sendAlong_ok hremove ha hu.source
    · intro q _ _ o ho
      rw [List.mem_singleton.mp ho]
      trivial
    · rw [List.length_reverse, List.length_take]
      omega
    · exact fun hmem => hbcast (List.mem_of_mem_take (List.mem_reverse.mp hmem))

theorem sendTimeout_ok (hn : n.Ok M S a) (k : ℕ) : (sendTimeout k n).Ok M S a :=
  { hn with sendQ := fun w hmem => hn.sendQ w (List.mem_of_mem_eraseIdx hmem) }

theorem jitterSendTimeout_ok {k : ℕ} (hn : n.Ok M S a) (hk : k < n.jitterQ.length) :
    ∃ n', jitterSendTimeout (M.host a) k n = some n' ∧ n'.Ok M S a := by
  refine ⟨_, by rw [jitterSendTimeout, List.getElem?_eq_getElem hk]; rfl, ?_⟩
  have herase : Node.Ok M S a { n with jitterQ := n.jitterQ.eraseIdx k } :=
    { hn with jitterQ := fun p hmem => hn.jitterQ p (List.mem_of_mem_eraseIdx hmem) }
  exact output_ok herase (hn.jitterQ _ (List.getElem_mem hk))

/-! ### The mesh -/

/-- The nodes, and all that has been sent: by whom, to which neighbour, and what. -/
structure Net (β : Type*) where
  nodes : Addr → Node β
  air : List (Addr × Addr × Packet β)

namespace Net

def init (ackId rtreqId : Addr → Ident) : Net β where
  nodes := fun a => Node.init (ackId a) (rtreqId a)
  air := []

def after (σ : Net β) (a : Addr) (n : Node β) : Net β where
  nodes := Function.update σ.nodes a { n with sent := [] }
  air := σ.air ++ n.sent.map fun x => (a, x)

@[simp] theorem after_nodes_self (σ : Net β) (a : Addr) (n : Node β) :
    (σ.after a n).nodes a = { n with sent := [] } :=
  Function.update_self ..

theorem after_nodes_of_ne {a b : Addr} (h : b ≠ a) (σ : Net β) (n : Node β) :
    (σ.after a n).nodes b = σ.nodes b :=
  Function.update_of_ne h ..

end Net

inductive Act (β : Type*)
  | hear (b : Addr) (k now : ℕ) (beyond : ℕ → Addr)
  | localOut (a : Addr) (now jiffies : ℕ) (p : Packet β)
  | rtReqTimeout (a : Addr) (i : ℕ)
  | ackTimeout (a : Addr) (now k : ℕ)
  | sendTimeout (a : Addr) (k : ℕ)
  | jitterSendTimeout (a : Addr) (k : ℕ)

namespace Act

/-- It is something that happens in the mesh. Packets of the hosts' own are for addresses of the
subnet and short enough for a header to be added, and no broadcast address stands behind a list of
relays. -/
def Allowed (M : Mesh) : Act β → Prop
  | hear b _ _ beyond => b ∈ M.hosts ∧ ∀ j, beyond j ≠ M.bcast
  | localOut a _ _ p =>
      a ∈ M.hosts ∧ p.saddr = a ∧ M.Subnet p.daddr ∧
        4 * p.ihl + dsrHeaderLen maxRouteLen + p.data.bytes.length < 0x10000
  | rtReqTimeout a _ => a ∈ M.hosts
  | ackTimeout a _ _ => a ∈ M.hosts
  | sendTimeout a _ => a ∈ M.hosts
  | jitterSendTimeout a _ => a ∈ M.hosts

/-- It can happen now: a packet was sent to the host or to all, a timer is pending. -/
def Enabled (M : Mesh) : Act β → Net β → Prop
  | hear b k _ _, σ => ∃ x ∈ σ.air[k]?, M.link x.1 b ∧ (x.2.1 = b ∨ x.2.1 = M.bcast)
  | rtReqTimeout a i, σ => ∃ e ∈ (σ.nodes a).reqs.entries[i]?, e.used
  | ackTimeout a _ k, σ => k < (σ.nodes a).rxmtQ.length
  | jitterSendTimeout a k, σ => k < (σ.nodes a).jitterQ.length
  | localOut _ _ _ _, _ => True
  | sendTimeout _ _, _ => True

instance Enabled.decidable [DecidableRel M.link] :
    (act : Act β) → (σ : Net β) → Decidable (act.Enabled M σ)
  | hear b k _ _, σ =>
      inferInstanceAs (Decidable (∃ x ∈ σ.air[k]?, M.link x.1 b ∧ (x.2.1 = b ∨ x.2.1 = M.bcast)))
  | rtReqTimeout a i, σ =>
      inferInstanceAs (Decidable (∃ e ∈ (σ.nodes a).reqs.entries[i]?, e.used = true))
  | ackTimeout a _ k, σ => inferInstanceAs (Decidable (k < (σ.nodes a).rxmtQ.length))
  | jitterSendTimeout a k, σ => inferInstanceAs (Decidable (k < (σ.nodes a).jitterQ.length))
  | localOut _ _ _ _, _ => .isTrue trivial
  | sendTimeout _ _, _ => .isTrue trivial

/-- What then happens; there is no result if a function writes past an entry, runs past the end of a
table, does not end, or works on an entry that is not in use. -/
def step (M : Mesh) : Act β → Net β → Option (Net β)
  | hear b k now beyond, σ =>
      σ.air[k]?.bind fun x =>
        (preRoute (M.host b) now beyond x.2.2 (σ.nodes b)).map (σ.after b)
  | localOut a now jiffies p, σ =>
      (Dsr.localOut (M.host a) now jiffies p (σ.nodes a)).map (σ.after a)
  | rtReqTimeout a i, σ => (Dsr.rtReqTimeout (M.host a) i (σ.nodes a)).map (σ.after a)
  | ackTimeout a now k, σ => (Dsr.ackTimeout (M.host a) now k (σ.nodes a)).map (σ.after a)
  | sendTimeout a k, σ => some (σ.after a (Dsr.sendTimeout k (σ.nodes a)))
  | jitterSendTimeout a k, σ => (Dsr.jitterSendTimeout (M.host a) k (σ.nodes a)).map (σ.after a)

end Act

/-- The mesh comes from its start to the state `σ` by the acts, each of which can happen when it
does. -/
structure Run (M : Mesh) (start : Net β) (acts : List (Act β)) (σ : Net β) : Prop where
  fresh : ∃ ackId rtreqId, start = Net.init ackId rtreqId
  allowed : ∀ act ∈ acts, act.Allowed M
  enabled : Machine.Throughout (Act.step M) (Act.Enabled M) acts start
  finish : Machine.finish (Act.step M) acts start = some σ

/-- Every node is as it should be, and so is all that is in the air. -/
structure Net.Ok (M : Mesh) (S : Addr → Addr → Data β → Prop) (σ : Net β) : Prop where
  nodes : ∀ a ∈ M.hosts, (σ.nodes a).Ok M S a
  air : ∀ x ∈ σ.air, x.1 ∈ M.hosts ∧ Flight M S x.1 x.2.1 x.2.2

theorem Net.init_ok (M : Mesh) (S : Addr → Addr → Data β → Prop) (ackId rtreqId : Addr → Ident) :
    (Net.init ackId rtreqId).Ok M S where
  nodes := fun a _ => Node.init_ok M S a _ _
  air := fun _ hx => absurd hx List.not_mem_nil

theorem Net.Ok.after {σ : Net β} (hσ : σ.Ok M S) (ha : a ∈ M.hosts) (hn : n.Ok M S a) :
    (σ.after a n).Ok M S where
  nodes := by
    intro b hb
    by_cases hab : b = a
    · rw [hab, Net.after_nodes_self]
      exact { hn with sent := fun _ hx => absurd hx List.not_mem_nil }
    · rw [Net.after_nodes_of_ne hab]
      exact hσ.nodes b hb
  air := by
    intro x hx
    rcases List.mem_append.mp hx with hx | hx
    · exact hσ.air x hx
    · obtain ⟨y, hy, rfl⟩ := List.mem_map.mp hx
      exact ⟨ha, hn.sent y hy⟩

def Act.own : Act β → Option (Packet β)
  | localOut _ _ _ p => some p
  | _ => none

theorem Act.step_ok {σ : Net β} (hσ : σ.Ok M S) (hfew : M.hosts.card ≤ maxRouteLen + 1)
    {act : Act β} (hallowed : act.Allowed M) (hon : act.Enabled M σ)
    (hown : ∀ p ∈ act.own, p.Gives M S) : ∃ σ', act.step M σ = some σ' ∧ σ'.Ok M S := by
  cases act with
  | hear b k now beyond =>
      obtain ⟨hb, hbeyond⟩ := hallowed
      obtain ⟨x, hx, hlink, hhop⟩ := hon
      obtain ⟨hc, hflight⟩ := hσ.air x (List.mem_of_getElem? hx)
      obtain ⟨n', hpre, hn'⟩ :=
        preRoute_ok (hσ.nodes b hb) hb hc hflight hlink hhop hfew now hbeyond
      exact ⟨σ.after b n', by rw [step, hx, Option.bind_some, hpre]; rfl, hσ.after hb hn'⟩
  | localOut a now jiffies p =>
      obtain ⟨ha, hsaddr, hdaddr, -⟩ := hallowed
      obtain ⟨n', hlocal, hn'⟩ :=
        localOut_ok (hσ.nodes a ha) ha hsaddr hdaddr (hown p rfl) now jiffies
      exact ⟨σ.after a n', by rw [step, hlocal]; rfl, hσ.after ha hn'⟩
  | rtReqTimeout a i =>
      obtain ⟨e, hi, hused⟩ := hon
      obtain ⟨n', htimeout, hn'⟩ := rtReqTimeout_ok (hσ.nodes a hallowed) hallowed hi hused
      exact ⟨σ.after a n', by rw [step, htimeout]; rfl, hσ.after hallowed hn'⟩
  | ackTimeout a now k =>
      obtain ⟨n', htimeout, hn'⟩ := ackTimeout_ok (hσ.nodes a hallowed) hallowed hon now
      exact ⟨σ.after a n', by rw [step, htimeout]; rfl, hσ.after hallowed hn'⟩
  | sendTimeout a k =>
      exact ⟨_, rfl, hσ.after hallowed (sendTimeout_ok (hσ.nodes a hallowed) k)⟩
  | jitterSendTimeout a k =>
      obtain ⟨n', htimeout, hn'⟩ := jitterSendTimeout_ok (hσ.nodes a hallowed) hon
      exact ⟨σ.after a n', by rw [step, htimeout]; rfl, hσ.after hallowed hn'⟩

section Runs

variable {start σ : Net β} {acts : List (Act β)}

theorem Run.ok (h : Run M start acts σ) (hfew : M.hosts.card ≤ maxRouteLen + 1)
    (hown : ∀ act ∈ acts, ∀ p ∈ act.own, p.Gives M S) : σ.Ok M S := by
  obtain ⟨ackId, rtreqId, rfl⟩ := h.fresh
  have hall : ∀ act ∈ acts, ∀ _ : Net β, act.Allowed M ∧ ∀ p ∈ act.own, p.Gives M S :=
    fun act hact _ => ⟨h.allowed act hact, hown act hact⟩
  apply (Machine.visits_of_finish h.finish).invariant_of_throughout _
    ((Machine.throughout_of_forall hall _).and h.enabled) (Net.init_ok M S ackId rtreqId)
  intro act σ₁ σ₂ hσ₁ hact hstep
  obtain ⟨σ', hσ', hok⟩ := Act.step_ok hσ₁ hfew hact.1.1 hact.2 hact.1.2
  obtain rfl := Option.some.inj (hσ'.symm.trans hstep)
  exact hok

theorem Run.ok_true (h : Run M start acts σ) (hfew : M.hosts.card ≤ maxRouteLen + 1) :
    σ.Ok M fun _ _ _ => True :=
  h.ok hfew fun _ _ _ _ _ _ => trivial

end Runs

/-! ### A run of three hosts -/

def row : Mesh where
  hosts := {0x0a000001, 0x0a000002, 0x0a000003}
  netmask := 0xffffff00
  network := 0x0a000000
  bcast := 0x0a0000ff
  gateway := fun _ => none
  gw := fun _ => false
  pmtu := 1500
  link := fun a b => a = 0x0a000002 ∨ b = 0x0a000002
  zero_notMem := by simp
  bcast_notMem := by simp
  bcast_ne_zero := by simp
  subnet := by simp
  gateway_ne := by simp
  pmtu_ge := by decide

instance row_link_decidable : DecidableRel row.link :=
  fun a b => inferInstanceAs (Decidable (a = 0x0a000002 ∨ b = 0x0a000002))

theorem row_few : row.hosts.card ≤ maxRouteLen + 1 := by
  simp [row, maxRouteLen]

def rowStart : Net ℕ :=
  .init (fun _ => 0) fun _ => 0

/-- The first host sends to all and sends the third a packet: the requests and the reply pass the
second host, and then the packet does. -/
def rowActs : List (Act ℕ) :=
  [.localOut 0x0a000001 0 0 ⟨0x0a000001, 0x0a0000ff, bareIhl, 64, [], ⟨0, false, [4]⟩⟩,
   .localOut 0x0a000001 0 0 ⟨0x0a000001, 0x0a000003, bareIhl, 64, [], ⟨0, false, [7, 8]⟩⟩,
   .jitterSendTimeout 0x0a000001 0,
   .hear 0x0a000002 0 0 fun _ => 0,
   .jitterSendTimeout 0x0a000001 0,
   .hear 0x0a000002 1 0 fun _ => 0,
   .jitterSendTimeout 0x0a000002 1,
   .hear 0x0a000003 2 0 fun _ => 0,
   .hear 0x0a000002 3 0 fun _ => 0,
   .hear 0x0a000001 5 0 fun _ => 0,
   .hear 0x0a000002 6 0 fun _ => 0,
   .hear 0x0a000003 9 0 fun _ => 0]

theorem row_allowed : ∀ act ∈ rowActs, act.Allowed row := by
  have hfirst : 0x0a000001 ∈ row.hosts := by decide
  have hsecond : 0x0a000002 ∈ row.hosts := by decide
  have hthird : 0x0a000003 ∈ row.hosts := by decide
  have hhear : ∀ {b : Addr} (k : ℕ), b ∈ row.hosts →
      (Act.hear b k 0 fun _ => 0 : Act ℕ).Allowed row :=
    fun _ hb => ⟨hb, fun _ => row.bcast_ne_zero.symm⟩
  simp only [rowActs, List.forall_mem_cons]
  exact ⟨⟨hfirst, rfl, rfl, by decide⟩, ⟨hfirst, rfl, rfl, by decide⟩, hfirst, hhear 0 hsecond,
    hfirst, hhear 1 hsecond, hsecond, hhear 2 hthird, hhear 3 hsecond, hhear 5 hfirst,
    hhear 6 hsecond, hhear 9 hthird, List.forall_mem_nil _⟩

theorem row_run {P : Net ℕ → Prop} [DecidablePred P]
    (h : (Machine.finish (Act.step row) rowActs rowStart).any (fun σ => decide (P σ)) = true) :
    ∃ σ, Run row rowStart rowActs σ ∧ P σ := by
  obtain ⟨σ, hfinish, hσ⟩ := Machine.exists_finish h
  exact ⟨σ, ⟨⟨_, _, rfl⟩, row_allowed, by decide +kernel, hfinish⟩, hσ⟩

def rowReply : Packet ℕ where
  saddr := 0x0a000003
  daddr := 0x0a000001
  ihl := bareIhl
  ttl := 16
  opts := [.pad, .rtReply 1 [0x0a000002], .ackReq 1 0x0a000003, .srcRt 1 [0x0a000002]]
  data := ⟨0, false, []⟩

def rowData : Packet ℕ where
  saddr := 0x0a000001
  daddr := 0x0a000003
  ihl := bareIhl
  ttl := 63
  opts := [.srcRt 0 [0x0a000002], .ackReq 2 0x0a000002]
  data := ⟨0, false, [7, 8]⟩

/-! ### Safety over every run -/

/-- No order of losses, repetitions, timers and packets makes a function of the module write past
an entry, run past the end of a table or not end, in a mesh of up to sixteen hosts. -/
theorem mesh_never_faults {start σ : Net β} {acts : List (Act β)} (hrun : Run M start acts σ)
    (hfew : M.hosts.card ≤ maxRouteLen + 1) {act : Act β} (hallowed : act.Allowed M)
    (hon : act.Enabled M σ) : (act.step M σ).isSome = true := by
  obtain ⟨σ', hσ', -⟩ :=
    Act.step_ok (hrun.ok_true hfew) hfew hallowed hon fun _ _ _ _ => trivial
  rw [hσ']
  rfl

theorem mesh_never_faults_row :
    ∃ σ, Run row rowStart rowActs σ ∧
      ((Act.ackTimeout 0x0a000001 5 0).step row σ).isSome = true := by
  obtain ⟨σ, hrun, hpending⟩ : ∃ σ, Run row rowStart rowActs σ ∧
      (Act.ackTimeout 0x0a000001 5 0).Enabled row σ := row_run (by decide +kernel)
  exact ⟨σ, hrun, mesh_never_faults hrun row_few (by simp [row, Act.Allowed]) hpending⟩

/-! ### What is in the air -/

section Air

variable {c hop : Addr}

theorem RoutedFlight.mem_opts {segsLeft : ℕ} {addr : List Addr}
    (h : RoutedFlight M S c hop p segsLeft addr) {o : Opt} (hmem : o ∈ p.opts) :
    o = .srcRt segsLeft addr ∨ OptOk M c p o := by
  obtain ⟨pre, post, hopts, hok⟩ := h.opts
  rw [hopts, List.mem_append, List.mem_cons] at hmem
  rcases hmem with hmem | hmem | hmem
  · exact .inr (hok o (List.mem_append_left post hmem))
  · exact .inl hmem
  · exact .inr (hok o (List.mem_append_right pre hmem))

theorem Flight.mem_opts (h : Flight M S c hop p) {o : Opt} (hmem : o ∈ p.opts) :
    (∃ ident taddr addr, o = .rtReq ident taddr addr ∧
      RequestFlight M c hop p ident taddr addr) ∨
    (∃ segsLeft addr, o = .srcRt segsLeft addr ∧ RoutedFlight M S c hop p segsLeft addr) ∨
    OptOk M c p o ∨ ∃ ident saddr daddr, o = .ack ident saddr daddr := by
  cases h with
  | request h =>
      rw [h.opts, List.mem_singleton] at hmem
      exact .inl ⟨_, _, _, hmem, h⟩
  | routed h =>
      rcases h.mem_opts hmem with hsrc | hok
      · exact .inr (.inl ⟨_, _, hsrc, h⟩)
      · exact .inr (.inr (.inl hok))
  | ack h =>
      obtain ⟨ident, saddr, daddr, hopts⟩ := h.opts
      rw [hopts, List.mem_singleton] at hmem
      exact .inr (.inr (.inr ⟨ident, saddr, daddr, hmem⟩))

theorem Flight.rtReq_mem (h : Flight M S c hop p) {ident : Ident} {taddr : Addr} {addr : List Addr}
    (hmem : Opt.rtReq ident taddr addr ∈ p.opts) : RequestFlight M c hop p ident taddr addr := by
  rcases h.mem_opts hmem with ⟨_, _, _, ho, hreq⟩ | ⟨_, _, ho, -⟩ | hok | ⟨_, _, _, ho⟩
  · cases ho
    exact hreq
  · cases ho
  · exact hok.elim
  · cases ho

theorem Flight.rtReply_mem (h : Flight M S c hop p) {ident : Ident} {addr : List Addr}
    (hmem : Opt.rtReply ident addr ∈ p.opts) :
    (p.daddr :: addr ++ [p.saddr]).IsChain M.link ∧ (p.daddr :: addr ++ [p.saddr]).Nodup := by
  rcases h.mem_opts hmem with ⟨_, _, _, ho, -⟩ | ⟨_, _, ho, -⟩ | hok | ⟨_, _, _, ho⟩
  · cases ho
  · cases ho
  · exact ⟨hok.1, hok.2.1⟩
  · cases ho

theorem firstHop_subnet {daddr : Addr} {addr : List Addr} (hc : M.Subnet c)
    (hdaddr : M.Subnet daddr) (haddr : ∀ x ∈ addr, M.Subnet x) :
    firstHop (M.host c) daddr addr = some (addr.headD daddr) := by
  apply Mesh.host_nextHop hc
  cases addr with
  | nil => exact hdaddr
  | cons x addr => exact haddr x List.mem_cons_self

theorem RoutedFlight.in_subnet {segsLeft : ℕ} {addr : List Addr}
    (h : RoutedFlight M S c hop p segsLeft addr) (hc : c ∈ M.hosts)
    (haddr : ∀ x ∈ addr, M.Subnet x) :
    (p.saddr :: addr.take (addr.length - segsLeft)).IsChain M.link ∧
      (p.saddr :: addr)[addr.length - segsLeft]? = some c ∧
      (addr ++ [p.daddr])[addr.length - segsLeft]? = some hop := by
  have hle : addr.length - segsLeft ≤ addr.length := Nat.sub_le _ _
  obtain ⟨hchain, hlast⟩ := h.came.relays (Mesh.subnet_host h.source)
    fun x hx => haddr x (List.mem_of_mem_take hx)
  refine ⟨hchain, ?_, ?_⟩
  · have hlt : addr.length - segsLeft < (p.saddr :: addr).length := Nat.lt_succ_of_le hle
    rw [← List.take_succ_cons, List.getLast?_take, if_neg (Nat.succ_ne_zero _), Nat.add_sub_cancel,
      List.getElem?_eq_getElem hlt] at hlast
    rw [List.getElem?_eq_getElem hlt]
    exact hlast
  · have hdrop : ∀ x ∈ addr.drop (addr.length - segsLeft), M.Subnet x :=
      fun x hx => haddr x (List.mem_of_mem_drop hx)
    have hhop := h.hop
    rw [firstHop_subnet (Mesh.subnet_host hc) h.daddr hdrop,
      firstHop_subnet (Mesh.subnet_host hc) h.daddr haddr] at hhop
    rw [← List.head?_drop, List.drop_append_of_le_length hle]
    rcases hhop with hhop | ⟨hnone, -⟩
    · rw [← hhop]
      cases addr.drop (addr.length - segsLeft) <;> rfl
    · cases hnone

theorem Flight.srcRt_mem (h : Flight M S c hop p) {segsLeft : ℕ} {addr : List Addr}
    (hmem : Opt.srcRt segsLeft addr ∈ p.opts) : RoutedFlight M S c hop p segsLeft addr := by
  rcases h.mem_opts hmem with ⟨_, _, _, ho, -⟩ | ⟨_, _, ho, hsrc⟩ | hok | ⟨_, _, _, ho⟩
  · cases ho
  · cases ho
    exact hsrc
  · exact hok.elim
  · cases ho

end Air

/-- A request in the air lists the way it has come, from its source to the host that sent it; a
reply lists a way from the host it is for to the one it is from. Both go along links and pass no
host twice. -/
theorem discovered_routes_are_paths {start σ : Net β} {acts : List (Act β)}
    (hrun : Run M start acts σ) (hfew : M.hosts.card ≤ maxRouteLen + 1) {c hop : Addr}
    {p : Packet β} (hair : (c, hop, p) ∈ σ.air) :
    (∀ ident taddr addr, Opt.rtReq ident taddr addr ∈ p.opts →
      (p.saddr :: addr).IsChain M.link ∧ (p.saddr :: addr).Nodup ∧
        (p.saddr :: addr).getLast? = some c) ∧
    ∀ ident addr, Opt.rtReply ident addr ∈ p.opts →
      (p.daddr :: addr ++ [p.saddr]).IsChain M.link ∧ (p.daddr :: addr ++ [p.saddr]).Nodup := by
  obtain ⟨-, hflight⟩ := (hrun.ok_true hfew).air _ hair
  constructor
  · intro ident taddr addr hmem
    have h := hflight.rtReq_mem hmem
    exact ⟨h.walk, h.nodup, h.last⟩
  · intro ident addr hmem
    exact hflight.rtReply_mem hmem

theorem discovered_routes_are_paths_row :
    ∃ σ, Run row rowStart rowActs σ ∧ (0x0a000003, 0x0a000002, rowReply) ∈ σ.air ∧
      List.IsChain row.link [0x0a000001, 0x0a000002, 0x0a000003] ∧
      List.Nodup [(0x0a000001 : Addr), 0x0a000002, 0x0a000003] := by
  obtain ⟨σ, hrun, hair⟩ : ∃ σ, Run row rowStart rowActs σ ∧
      (0x0a000003, 0x0a000002, rowReply) ∈ σ.air := row_run (by decide +kernel)
  exact ⟨σ, hrun, hair,
    (discovered_routes_are_paths hrun row_few hair).2 1 [0x0a000002] (by decide)⟩

/-- A packet in the air with a source route has come along it: host by host, over links, each time
to where the kernel sends what is for the next relay; and so it is sent on now, or else it is at
its source, whose kernel has no route to the first relay, and goes to its destination at once.
Where the relays are addresses of the subnet, they are the hosts that it has come through, and the
next one is the neighbour it is sent to. -/
theorem source_routes_are_followed {start σ : Net β} {acts : List (Act β)}
    (hrun : Run M start acts σ) (hfew : M.hosts.card ≤ maxRouteLen + 1) {c hop : Addr}
    {p : Packet β} (hair : (c, hop, p) ∈ σ.air) {segsLeft : ℕ} {addr : List Addr}
    (hmem : Opt.srcRt segsLeft addr ∈ p.opts) :
    segsLeft ≤ addr.length ∧
      M.Follows p.saddr (addr.take (addr.length - segsLeft)) c ∧
      (firstHop (M.host c) p.daddr (addr.drop (addr.length - segsLeft)) = some hop ∨
        firstHop (M.host c) p.daddr addr = none ∧ segsLeft = addr.length ∧ hop = p.daddr) ∧
      ((∀ x ∈ addr, M.Subnet x) →
        (p.saddr :: addr.take (addr.length - segsLeft)).IsChain M.link ∧
        (p.saddr :: addr)[addr.length - segsLeft]? = some c ∧
        (addr ++ [p.daddr])[addr.length - segsLeft]? = some hop) := by
  obtain ⟨hc, hflight⟩ := (hrun.ok_true hfew).air _ hair
  have h := hflight.srcRt_mem hmem
  refine ⟨h.segs, h.came, h.hop, ?_⟩
  intro haddr
  exact h.in_subnet hc haddr

theorem source_routes_are_followed_row :
    ∃ σ, Run row rowStart rowActs σ ∧ (0x0a000002, 0x0a000003, rowData) ∈ σ.air ∧
      row.Follows 0x0a000001 [0x0a000002] 0x0a000002 ∧
      List.IsChain row.link [0x0a000001, 0x0a000002] := by
  obtain ⟨σ, hrun, hair⟩ : ∃ σ, Run row rowStart rowActs σ ∧
      (0x0a000002, 0x0a000003, rowData) ∈ σ.air := row_run (by decide +kernel)
  have hroute : Opt.srcRt 0 [0x0a000002] ∈ rowData.opts := by decide
  obtain ⟨-, hcame, -, hsubnet⟩ := source_routes_are_followed hrun row_few hair hroute
  exact ⟨σ, hrun, hair, hcame, (hsubnet (by simp [Mesh.Subnet, row])).1⟩

end WirelessMesh.Dsr
