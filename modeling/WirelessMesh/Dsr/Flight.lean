import Mathlib.Data.Finset.Card
import Mathlib.Data.List.Chain
import WirelessMesh.Dsr.CacheSpec
import WirelessMesh.Dsr.Node
import WirelessMesh.Lib.Lists

/-!
# What a node of a mesh sends

A mesh is a set of hosts of one subnet and the links between them. Every packet a host sends is
one of three kinds: a route request, whose list is the way it has come; a packet with a source
route, which has come along the first part of it; or an acknowledgement to a neighbour. A host
that has only ever been sent such packets sends nothing else, and none of its functions writes
or reads outside its tables.
-/

namespace WirelessMesh.Dsr

/-- The hosts of a subnet, how they are set up, and who hears whom. -/
structure Mesh where
  hosts : Finset Addr
  netmask : Addr
  network : Addr
  bcast : Addr
  gateway : Addr → Option Addr
  gw : Addr → Bool
  pmtu : ℕ
  link : Addr → Addr → Prop
  zero_notMem : 0 ∉ hosts
  bcast_notMem : bcast ∉ hosts
  bcast_ne_zero : bcast ≠ 0
  subnet : ∀ a ∈ insert bcast hosts, a &&& netmask = network
  gateway_ne : ∀ a, gateway a ≠ some bcast
  /-- There is room for eight bytes behind the longest headers. -/
  pmtu_ge : 60 + dsrHeaderLen maxRouteLen + 8 ≤ pmtu

namespace Mesh

def host (M : Mesh) (a : Addr) : Host where
  ipaddr := a
  netmask := M.netmask
  bcast := M.bcast
  gateway := M.gateway a
  gw := M.gw a
  pmtu := M.pmtu

variable {M : Mesh} {a c : Addr}

def Subnet (M : Mesh) (x : Addr) : Prop :=
  x &&& M.netmask = M.network

theorem subnet_host (ha : a ∈ M.hosts) : M.Subnet a :=
  M.subnet a (Finset.mem_insert_of_mem ha)

theorem ne_bcast (ha : a ∈ M.hosts) : a ≠ M.bcast := fun h =>
  M.bcast_notMem (h ▸ ha)

theorem host_subnet (ha : M.Subnet a) {x : Addr} (hx : M.Subnet x) :
    (M.host a).subnet x = true := by
  rw [Host.subnet, beq_iff_eq]
  exact hx.trans ha.symm

theorem host_nextHop (ha : M.Subnet a) {x : Addr} (hx : M.Subnet x) :
    (M.host a).nextHop x = some x :=
  if_pos (host_subnet ha hx)

theorem host_nextHop_ne {x : Addr} (hx : x ≠ M.bcast) : (M.host a).nextHop x ≠ some M.bcast := by
  rw [Host.nextHop]
  split
  · exact fun h => hx (Option.some.inj h)
  · exact M.gateway_ne a

/-- A packet that goes over the relays of the list comes from `a` to `c`: each host sends it, over
a link, where its kernel sends what is for the next relay. -/
def Follows (M : Mesh) : Addr → List Addr → Addr → Prop
  | a, [], c => a = c
  | a, x :: addr, c => ∃ b, (M.host a).nextHop x = some b ∧ M.link a b ∧ M.Follows b addr c

theorem Follows.snoc {addr : List Addr} {b x : Addr} (h : M.Follows a addr b)
    (hx : (M.host b).nextHop x = some c) (hlink : M.link b c) : M.Follows a (addr ++ [x]) c := by
  induction addr generalizing a with
  | nil =>
      obtain rfl : a = b := h
      exact ⟨c, hx, hlink, rfl⟩
  | cons y addr ih =>
      obtain ⟨a', hy, hay, h⟩ := h
      exact ⟨a', hy, hay, ih h⟩

theorem Follows.relays {addr : List Addr} (h : M.Follows a addr c) (ha : M.Subnet a)
    (haddr : ∀ x ∈ addr, M.Subnet x) :
    (a :: addr).IsChain M.link ∧ (a :: addr).getLast? = some c := by
  induction addr generalizing a with
  | nil =>
      obtain rfl : a = c := h
      exact ⟨.singleton a, rfl⟩
  | cons x addr ih =>
      obtain ⟨hx, haddr⟩ := List.forall_mem_cons.mp haddr
      obtain ⟨b, hb, hlink, h⟩ := h
      obtain rfl : x = b := Option.some.inj ((host_nextHop ha hx).symm.trans hb)
      obtain ⟨hchain, hlast⟩ := ih h hx haddr
      exact ⟨.cons_cons hlink hchain, by rw [List.getLast?_cons_cons, hlast]⟩

end Mesh

/-- The data is a part of other data and lies at its place in it: it may be a fragment, of which
more follow if more does. -/
def Data.PieceOf {β : Type*} (x d : Data β) : Prop :=
  ∃ pre post, d.bytes = pre ++ x.bytes ++ post ∧ x.offset = d.offset + pre.length ∧
    x.mf = (!post.isEmpty || d.mf)

theorem Data.PieceOf.refl {β : Type*} (d : Data β) : d.PieceOf d :=
  ⟨[], [], by simp, rfl, rfl⟩

theorem Data.fragments_spec {β : Type*} {room : ℕ} (hroom : 8 ≤ room) (d : Data β) :
    ∃ xs, d.fragments room = some xs ∧ ∀ x ∈ xs, x.PieceOf d ∧ (x = d ∨ room < d.bytes.length) := by
  induction hlen : d.bytes.length using Nat.strongRecOn generalizing d with
  | ind len ih =>
      rw [Data.fragments]
      split
      · refine ⟨[d], rfl, ?_⟩
        intro x hx
        rw [List.mem_singleton.mp hx]
        exact ⟨.refl d, .inl rfl⟩
      · next hlong =>
          -- the rest is cut in the same way, and its pieces lie behind the first one
          set cut := room / 8 * 8 with hcut
          have hdrop : (d.bytes.drop cut).length < len := by
            rw [List.length_drop]
            omega
          obtain ⟨xs, hxs, hpieces⟩ :=
            ih _ hdrop ⟨d.offset + cut, d.mf, d.bytes.drop cut⟩ rfl
          refine ⟨_, congrArg (Option.map _) hxs, ?_⟩
          intro x hx
          refine ⟨?_, .inr (by omega)⟩
          rcases List.mem_cons.mp hx with rfl | hx
          · refine ⟨[], d.bytes.drop cut, by simp, rfl, ?_⟩
            have hne : d.bytes.drop cut ≠ [] := by
              rw [ne_eq, List.drop_eq_nil_iff]
              omega
            simp [hne]
          · obtain ⟨⟨pre, post, hbytes, hoffset, hmf⟩, -⟩ := hpieces x hx
            have htake : (d.bytes.take cut).length = cut := by
              rw [List.length_take]
              omega
            refine ⟨d.bytes.take cut ++ pre, post, ?_, ?_, hmf⟩
            · rw [List.append_assoc, List.append_assoc, ← List.append_assoc pre, ← hbytes,
                List.take_append_drop]
            · rw [hoffset, List.length_append, htake, Nat.add_assoc]

variable {β : Type*} {S : Addr → Addr → Data β → Prop}

/-- What the packet carries, if anything, was sent from its source to its destination: `S` says
what was. -/
def Packet.From (S : Addr → Addr → Data β → Prop) (p : Packet β) : Prop :=
  p.data.bytes ≠ [] → S p.saddr p.daddr p.data

theorem Packet.from_of_bare {p : Packet β} (hp : p.data.bytes = []) : p.From S :=
  fun h => absurd hp h

/-- What a packet of a host's own may be sent as: itself or a fragment, but only if it does not fit
with the longest header. -/
def Packet.Sends (M : Mesh) (p : Packet β) (x : Data β) : Prop :=
  x.PieceOf p.data ∧
    (x = p.data ∨ M.pmtu < 4 * p.ihl + dsrHeaderLen maxRouteLen + p.data.bytes.length)

/-- All that is sent of the packet was sent from its source to its destination. -/
def Packet.Gives (M : Mesh) (S : Addr → Addr → Data β → Prop) (p : Packet β) : Prop :=
  ∀ x, p.Sends M x → S p.saddr p.daddr x

/-- A route request that the host `a` sends: its list is the way from its source, along links and
through no host twice, and `a` is the last one it has come through. -/
structure RequestFlight (M : Mesh) (a hop : Addr) (p : Packet β) (ident : Ident) (taddr : Addr)
    (addr : List Addr) : Prop where
  opts : p.opts = [.rtReq ident taddr addr]
  hop : hop = M.bcast
  daddr : p.daddr = M.bcast
  payload : p.data.bytes = []
  walk : (p.saddr :: addr).IsChain M.link
  last : (p.saddr :: addr).getLast? = some a
  nodup : (p.saddr :: addr).Nodup
  hosts : ∀ x ∈ p.saddr :: addr, x ∈ M.hosts
  target : taddr ∉ addr

/-- An option other than the source route of a packet that has one: a reply lists a way from the
node it goes to up to the one it comes from, along links and through no host twice. -/
def OptOk (M : Mesh) (a : Addr) (p : Packet β) : Opt → Prop
  | .pad => True
  | .rtReply _ addr =>
      (p.daddr :: addr ++ [p.saddr]).IsChain M.link ∧ (p.daddr :: addr ++ [p.saddr]).Nodup ∧
        addr.length ≤ maxRouteLen ∧ ∀ x ∈ addr, x ∈ M.hosts
  | .rtErr _ _ _ => True
  | .ackReq _ saddr => saddr = a
  | _ => False

/-- A packet with a source route that the host `a` sends to the neighbour `hop`: the packet has come
to `a` along the route, and its kernel sends to `hop` what is for the next relay. The source sends
it to the destination itself if its kernel has no route to the first relay. -/
structure RoutedFlight (M : Mesh) (S : Addr → Addr → Data β → Prop) (a hop : Addr) (p : Packet β)
    (segsLeft : ℕ) (addr : List Addr) : Prop where
  opts : ∃ pre post, p.opts = pre ++ .srcRt segsLeft addr :: post ∧
    ∀ o ∈ pre ++ post, OptOk M a p o
  segs : segsLeft ≤ addr.length
  length : addr.length ≤ maxRouteLen
  noBcast : M.bcast ∉ addr
  source : p.saddr ∈ M.hosts
  daddr : M.Subnet p.daddr
  daddr_ne : p.daddr ≠ M.bcast
  came : M.Follows p.saddr (addr.take (addr.length - segsLeft)) a
  hop : firstHop (M.host a) p.daddr (addr.drop (addr.length - segsLeft)) = some hop ∨
    firstHop (M.host a) p.daddr addr = none ∧ segsLeft = addr.length ∧ hop = p.daddr
  carries : p.From S

structure AckFlight (M : Mesh) (a hop : Addr) (p : Packet β) : Prop where
  opts : ∃ ident saddr daddr, p.opts = [.ack ident saddr daddr]
  hop : hop = p.daddr
  daddr : p.daddr ∈ M.hosts
  saddr : p.saddr = a
  payload : p.data.bytes = []

inductive Flight (M : Mesh) (S : Addr → Addr → Data β → Prop) (a hop : Addr) (p : Packet β) : Prop
  | request {ident : Ident} {taddr : Addr} {addr : List Addr}
      (h : RequestFlight M a hop p ident taddr addr)
  | routed {segsLeft : ℕ} {addr : List Addr} (h : RoutedFlight M S a hop p segsLeft addr)
  | ack (h : AckFlight M a hop p)

/-- A packet that waits for its acknowledgement has a source route. -/
structure Packet.Held (M : Mesh) (p : Packet β) : Prop where
  srcRt : ∃ segsLeft addr, srcRtOf p.opts = some (segsLeft, addr) ∧
    addr.length ≤ maxRouteLen ∧ M.bcast ∉ addr
  source : p.saddr ∈ M.hosts
  daddr : M.Subnet p.daddr

/-- A packet of the host `a` that waits for a route; it may be one for the broadcast address, to
which none is ever found. -/
structure Waiting.Ok (M : Mesh) (S : Addr → Addr → Data β → Prop) (a : Addr) (w : Waiting β) :
    Prop where
  saddr : w.packet.saddr = a
  daddr : M.Subnet w.packet.daddr
  fwdaddr : w.fwdaddr = w.packet.daddr
  gives : w.packet.Gives M S

/-- The state of the host `a`: no route is to the broadcast address or over it, and the host was
handed nothing but what was sent to it. -/
structure Node.Ok (M : Mesh) (S : Addr → Addr → Data β → Prop) (a : Addr) (n : Node β) : Prop where
  cache : n.cache.Room (· ≠ M.bcast)
  idsLength : n.ids.entries.length = reqTableSize
  idsSize : n.ids.size = n.ids.entries.countP IdFifo.used
  reqsLength : n.reqs.entries.length = reqTableSize
  reqsSize : n.reqs.size = n.reqs.entries.countP RtReq.used
  rxmtQ : ∀ u ∈ n.rxmtQ, u.packet.Held M
  sendQ : ∀ w ∈ n.sendQ, w.Ok M S a
  jitterQ : ∀ p ∈ n.jitterQ, Flight M S a M.bcast p
  sent : ∀ x ∈ n.sent, Flight M S a x.1 x.2
  delivered : ∀ p ∈ n.delivered, S p.saddr p.daddr p.data ∧ p.daddr = a

theorem Node.init_ok (M : Mesh) (S : Addr → Addr → Data β → Prop) (a : Addr)
    (ackId rtreqId : Ident) :
    (Node.init ackId rtreqId : Node β).Ok M S a where
  cache := RtCache.init_room M.bcast_ne_zero.symm
  idsLength := rfl
  idsSize := rfl
  reqsLength := rfl
  reqsSize := rfl
  rxmtQ := by simp [Node.init]
  sendQ := by simp [Node.init]
  jitterQ := by simp [Node.init]
  sent := by simp [Node.init]
  delivered := by simp [Node.init]

/-! ### Sending -/

section Send

variable {M : Mesh} {a hop : Addr} {p : Packet β} {n : Node β}

theorem srcRtOf_append {pre post : List Opt} {segsLeft : ℕ} {addr : List Addr}
    (hpre : ∀ o ∈ pre, ∀ segs addr, o ≠ .srcRt segs addr) :
    srcRtOf (pre ++ .srcRt segsLeft addr :: post) = some (segsLeft, addr) := by
  induction pre with
  | nil => rfl
  | cons o pre ih =>
      have ih := ih fun x hx => hpre x (List.mem_cons_of_mem o hx)
      cases o with
      | srcRt segs addr' => exact absurd rfl (hpre _ List.mem_cons_self segs addr')
      | _ => exact ih

theorem OptOk.ne_srcRt {o : Opt} (h : OptOk M a p o) (segs : ℕ) (addr : List Addr) :
    o ≠ .srcRt segs addr := by
  rintro rfl
  exact h

theorem RoutedFlight.held {segsLeft : ℕ} {addr : List Addr}
    (h : RoutedFlight M S a hop p segsLeft addr) : p.Held M := by
  obtain ⟨pre, post, hopts, hok⟩ := h.opts
  refine ⟨⟨segsLeft, addr, ?_, h.length, h.noBcast⟩, h.source, h.daddr⟩
  rw [hopts]
  exact srcRtOf_append fun o ho => (hok o (List.mem_append_left post ho)).ne_srcRt

theorem Node.Ok.setAckId (hn : n.Ok M S a) (ackId : Ident) : { n with ackId := ackId }.Ok M S a :=
  { hn with cache := hn.cache }

theorem ackQAdd_ok (hn : n.Ok M S a) (hp : p.Held M) (hop : Option Addr) :
    (ackQAdd p hop n).Ok M S a := by
  rw [ackQAdd]
  split
  · exact hn
  · exact { hn with rxmtQ := Lists.forall_mem_snoc hn.rxmtQ hp }

theorem output_ok (hn : n.Ok M S a) (hp : Flight M S a hop p) : (output p hop n).Ok M S a :=
  { hn with sent := Lists.forall_mem_snoc hn.sent hp }

theorem outputAcked_ok {segsLeft : ℕ} {addr : List Addr} (hn : n.Ok M S a)
    (h : RoutedFlight M S a hop p segsLeft addr) : (outputAcked p hop n).Ok M S a :=
  output_ok (ackQAdd_ok hn h.held _) (.routed h)

theorem RoutedFlight.start (pre post : List Opt) {addr : List Addr} (ha : a ∈ M.hosts)
    (hopts : p.opts = pre ++ .srcRt addr.length addr :: post)
    (hok : ∀ o ∈ pre ++ post, OptOk M a p o) (hlen : addr.length ≤ maxRouteLen)
    (hbcast : M.bcast ∉ addr) (hsaddr : p.saddr = a) (hdaddr : M.Subnet p.daddr)
    (hne : p.daddr ≠ M.bcast) (hfrom : p.From S)
    (hhop : firstHop (M.host a) p.daddr addr = some hop ∨
      firstHop (M.host a) p.daddr addr = none ∧ hop = p.daddr) :
    RoutedFlight M S a hop p addr.length addr where
  opts := ⟨pre, post, hopts, hok⟩
  segs := Nat.le_refl _
  length := hlen
  noBcast := hbcast
  source := hsaddr ▸ ha
  daddr := hdaddr
  daddr_ne := hne
  came := by
    rw [Nat.sub_self]
    exact hsaddr
  hop := by
    rw [Nat.sub_self]
    exact hhop.imp_right fun h => ⟨h.1, rfl, h.2⟩
  carries := hfrom

theorem sendAlong_ok {daddr : Addr} {opts : List Opt} {addr : List Addr} (hn : n.Ok M S a)
    (ha : a ∈ M.hosts) (hdaddr : daddr ∈ M.hosts)
    (hopts : ∀ p : Packet β, p.saddr = a → p.daddr = daddr → ∀ o ∈ opts, OptOk M a p o)
    (hlen : addr.length ≤ maxRouteLen) (hbcast : M.bcast ∉ addr) :
    (sendAlong (M.host a) daddr opts addr n).Ok M S a := by
  rw [sendAlong]
  cases hhop : firstHop (M.host a) daddr addr with
  | none => exact hn.setAckId _
  | some hop =>
      have hflight := RoutedFlight.start (M := M) (S := S) (a := a)
        (p := (createDsrPacket (M.host a) daddr
          (opts ++ [.ackReq (n.ackId + 1) a, .srcRt addr.length addr]) : Packet β))
        (opts ++ [.ackReq (n.ackId + 1) a]) [] ha
        (by simp [createDsrPacket])
        (by
          rw [List.append_nil]
          exact Lists.forall_mem_snoc (hopts _ rfl rfl) rfl)
        hlen hbcast rfl (Mesh.subnet_host hdaddr)
        (Mesh.ne_bcast hdaddr) (Packet.from_of_bare rfl) (.inl hhop)
      exact outputAcked_ok (hn.setAckId _) hflight

theorem sendPiece_ok {rt : RtEntry} {x : Data β} (hn : n.Ok M S a) (ha : a ∈ M.hosts)
    (hsaddr : p.saddr = a) (hdaddr : M.Subnet p.daddr) (hne : p.daddr ≠ M.bcast)
    (hx : S p.saddr p.daddr x) (hlen : rt.path.length = rt.segsLeft)
    (hsegs : rt.segsLeft ≤ maxRouteLen) (hbcast : M.bcast ∉ rt.path)
    (hhop : firstHop (M.host a) p.daddr rt.path = some hop ∨
      firstHop (M.host a) p.daddr rt.path = none ∧ hop = p.daddr) :
    (sendPiece (M.host a) p rt hop n x).Ok M S a := by
  have hflight := RoutedFlight.start (M := M) (S := S) (a := a)
    (p := { p with opts := [.srcRt rt.segsLeft rt.path, .ackReq (n.ackId + 1) a], data := x })
    [] [.ackReq (n.ackId + 1) a] ha (by rw [← hlen]; rfl)
    (by
      intro o ho
      rw [List.mem_singleton.mp ho]
      exact rfl)
    (hlen ▸ hsegs) hbcast hsaddr hdaddr hne (fun _ => hx) hhop
  exact outputAcked_ok (hn.setAckId _) hflight

theorem sendPieces_ok {rt : RtEntry} {xs : List (Data β)} (hn : n.Ok M S a)
    (hstep : ∀ n : Node β, n.Ok M S a → ∀ x ∈ xs, (sendPiece (M.host a) p rt hop n x).Ok M S a) :
    (xs.foldl (sendPiece (M.host a) p rt hop) n).Ok M S a := by
  induction xs generalizing n with
  | nil => exact hn
  | cons x xs ih =>
      exact ih (hstep n hn x List.mem_cons_self) fun n hn y hy =>
        hstep n hn y (List.mem_cons_of_mem x hy)

theorem dsrSend_ok {rt : RtEntry} (hn : n.Ok M S a) (ha : a ∈ M.hosts) {fwdaddr : Addr}
    (hw : Waiting.Ok M S a ⟨p, fwdaddr⟩) (hlen : rt.path.length = rt.segsLeft)
    (hsegs : rt.segsLeft ≤ maxRouteLen) (hrelays : ∀ x ∈ rt.path, x ≠ M.bcast)
    (hne : fwdaddr ≠ M.bcast) :
    ∃ n', dsrSend (M.host a) p rt n = some n' ∧ n'.Ok M S a := by
  have hne : p.daddr ≠ M.bcast := fun h => hne (hw.fwdaddr.trans h)
  obtain ⟨hop, hor, hhop⟩ : ∃ hop, (firstHop (M.host a) p.daddr rt.path).or
        ((M.host a).nextHop p.daddr) = some hop ∧
      (firstHop (M.host a) p.daddr rt.path = some hop ∨
        firstHop (M.host a) p.daddr rt.path = none ∧ hop = p.daddr) := by
    cases hfirst : firstHop (M.host a) p.daddr rt.path with
    | none => exact ⟨p.daddr, Mesh.host_nextHop (Mesh.subnet_host ha) hw.daddr, .inr ⟨rfl, rfl⟩⟩
    | some hop => exact ⟨hop, rfl, .inl rfl⟩
  have hroom : 8 ≤ M.pmtu - (4 * p.ihl + dsrHeaderLen rt.segsLeft) := by
    have hpmtu := M.pmtu_ge
    have hihl := p.ihl.isLt
    simp only [dsrHeaderLen] at hpmtu ⊢
    omega
  obtain ⟨xs, hxs, hpieces⟩ := p.data.fragments_spec hroom
  refine ⟨xs.foldl (sendPiece (M.host a) p rt hop) n, ?_, ?_⟩
  · rw [dsrSend, hor, Option.elim_some]
    exact congrArg (Option.map _) hxs
  · apply sendPieces_ok hn
    intro n hn x hx
    obtain ⟨hpiece, hwhole⟩ := hpieces x hx
    have hgiven : S p.saddr p.daddr x := by
      refine hw.gives x ⟨hpiece, hwhole.imp_right fun hlong => ?_⟩
      simp only [dsrHeaderLen] at hlong ⊢
      omega
    exact sendPiece_ok hn ha hw.saddr hw.daddr hne hgiven hlen hsegs
      (fun hmem => hrelays _ hmem rfl) hhop

end Send

/-! ### Learning routes -/

section Learn

variable {M : Mesh} {a : Addr} {n : Node β}

/-- The relays of the route that is offered have room in an entry, and neither they nor the
destination are broadcast addresses. -/
structure Offer.Ok (M : Mesh) (o : Offer) : Prop where
  length : o.2.2.length ≤ maxRouteLen
  relays : ∀ x ∈ o.2.2, x ≠ M.bcast
  dst : o.1 ≠ M.bcast

theorem reverseOffers_ok (subnet : Addr → Bool) {daddr : Addr} {addr : List Addr}
    (hlen : addr.length ≤ maxRouteLen) (hbcast : M.bcast ∉ addr) (hdaddr : daddr ≠ M.bcast) :
    ∀ o ∈ reverseOffers subnet daddr addr, o.Ok M := by
  have hne : ∀ x ∈ addr, x ≠ M.bcast := fun x hx h => hbcast (h ▸ hx)
  intro o ho
  rcases List.mem_append.mp ho with ho | ho
  · obtain ⟨i, hi, rfl⟩ := List.mem_map.mp ho
    have hi := List.mem_range.mp hi
    refine ⟨?_, fun x hx => hne x (List.mem_of_mem_drop (List.mem_reverse.mp hx)), ?_⟩
    · rw [List.length_reverse, List.length_drop]
      omega
    · rw [List.getD_eq_getElem _ _ (by omega)]
      exact hne _ (List.getElem_mem _)
  · split_ifs at ho
    · obtain rfl := List.mem_singleton.mp ho
      exact ⟨by rwa [List.length_reverse], fun x hx => hne x (List.mem_reverse.mp hx), hdaddr⟩
    · exact absurd ho List.not_mem_nil

theorem forwardOffers_ok (subnet : Addr → Bool) {daddr : Addr} {addr : List Addr}
    {beyond : ℕ → Addr} (hlen : addr.length ≤ maxRouteLen) (hbcast : M.bcast ∉ addr)
    (hbeyond : ∀ k, beyond k ≠ M.bcast) (hdaddr : daddr ≠ M.bcast) :
    ∀ o ∈ forwardOffers subnet daddr addr beyond, o.Ok M := by
  have hne : ∀ x ∈ addr, x ≠ M.bcast := fun x hx h => hbcast (h ▸ hx)
  intro o ho
  rcases List.mem_append.mp ho with ho | ho
  · obtain ⟨i, hi, rfl⟩ := List.mem_map.mp ho
    have hi := List.mem_range.mp hi
    refine ⟨?_, ?_, ?_⟩
    · rw [length_wordsAt]
      omega
    · intro x hx
      obtain ⟨j, -, rfl⟩ := List.mem_map.mp hx
      rcases Nat.lt_or_ge (i - 1 + j) addr.length with hlt | hge
      · rw [List.getD_eq_getElem _ _ hlt]
        exact hne _ (List.getElem_mem hlt)
      · rw [List.getD_eq_default _ _ hge]
        exact hbeyond _
    · rw [List.getD_eq_getElem _ _ hi]
      exact hne _ (List.getElem_mem hi)
  · split_ifs at ho
    · obtain rfl := List.mem_singleton.mp ho
      exact ⟨hlen, hne, hdaddr⟩
    · exact absurd ho List.not_mem_nil

@[simp] theorem RtReq.clear_used (e : RtReq) : e.clear.used = false := by
  simp [RtReq.used, RtReq.clear]

theorem removeRtReqId_spec {t : ReqTable} (daddr : Addr)
    (hsize : t.size = t.entries.countP RtReq.used) :
    ∃ t', removeRtReqId daddr t = some t' ∧ t'.entries.length = t.entries.length ∧
      t'.size = t'.entries.countP RtReq.used := by
  rcases SlotTable.find_cases (fun e => e.taddr == daddr) 0
    ((Nat.zero_add _).trans hsize.symm) with ⟨k, e, hfind, hk, hused, -⟩ | ⟨hfind, -⟩
  · rw [removeRtReqId, hfind, Nat.zero_add]
    refine ⟨⟨t.entries.modify k RtReq.clear, t.size - 1⟩, rfl, List.length_modify .., ?_⟩
    have hcount := SlotTable.countP_modify RtReq.used hk RtReq.clear
    rw [if_pos hused, RtReq.clear_used, if_neg Bool.false_ne_true] at hcount
    simp only [hsize]
    omega
  · rw [removeRtReqId, hfind]
    exact ⟨t, rfl, rfl, hsize⟩

theorem learnOffers_ok {offers : List Offer} (hn : n.Ok M S a) (now : ℕ)
    (hoffers : ∀ o ∈ offers, o.Ok M) :
    ∃ n', learnOffers now offers n = some n' ∧ n'.Ok M S a := by
  induction offers generalizing n with
  | nil => exact ⟨n, rfl, hn⟩
  | cons o offers ih =>
      obtain ⟨hlen, hne, hdst⟩ := hoffers o List.mem_cons_self
      obtain ⟨r, hr, hroom⟩ := learnRoute_room hn.cache now o.2.1 hlen hne hdst
      obtain ⟨t, ht, htlen, htsize⟩ : ∃ t,
          (if r.2 then removeRtReqId o.1 n.reqs else some n.reqs) = some t ∧
            t.entries.length = reqTableSize ∧ t.size = t.entries.countP RtReq.used := by
        split
        · obtain ⟨t, ht, hlen', hsize⟩ := removeRtReqId_spec o.1 hn.reqsSize
          exact ⟨t, ht, hlen'.trans hn.reqsLength, hsize⟩
        · exact ⟨n.reqs, rfl, hn.reqsLength, hn.reqsSize⟩
      rw [learnOffers, hr, Option.bind_some, ht, Option.bind_some]
      exact ih { hn with cache := hroom, reqsLength := htlen, reqsSize := htsize }
        fun x hx => hoffers x (List.mem_cons_of_mem o hx)

theorem checkSendQ_ok {ws : List (Waiting β)} (hn : n.Ok M S a) (ha : a ∈ M.hosts) (now : ℕ)
    (hws : ∀ w ∈ ws, w.Ok M S a) :
    ∃ n', checkSendQ (M.host a) now ws n = some n' ∧ n'.Ok M S a := by
  induction ws generalizing n with
  | nil => exact ⟨n, rfl, hn⟩
  | cons w ws ih =>
      have hw := hws w List.mem_cons_self
      have hrest := fun x hx => hws x (List.mem_cons_of_mem w hx)
      obtain ⟨hroom, hfound⟩ := lookupRoute_room hn.cache now w.fwdaddr
      rw [checkSendQ]
      split
      · next rt hrt =>
          obtain ⟨hlen, hsegs, hrelays, hne⟩ := hfound rt hrt
          have hcache : Node.Ok M S a
              { n with cache := (lookupRoute now w.fwdaddr n.cache).1 } :=
            { hn with cache := hroom }
          obtain ⟨n', hsend, hn'⟩ := dsrSend_ok hcache ha hw hlen hsegs hrelays hne
          rw [hsend, Option.bind_some]
          exact ih hn' hrest
      · exact ih { hn with cache := hroom, sendQ := Lists.forall_mem_snoc hn.sendQ hw } hrest

theorem addRoutes_ok {offers : List Offer} (hn : n.Ok M S a) (ha : a ∈ M.hosts) (now : ℕ)
    (hoffers : ∀ o ∈ offers, o.Ok M) :
    ∃ n', addRoutes (M.host a) now offers n = some n' ∧ n'.Ok M S a := by
  obtain ⟨n', hlearn, hn'⟩ := learnOffers_ok hn now hoffers
  have hempty : Node.Ok M S a { n' with sendQ := [] } :=
    { hn' with sendQ := fun w hw => absurd hw List.not_mem_nil }
  rw [addRoutes, hlearn, Option.bind_some]
  exact checkSendQ_ok hempty ha now hn'.sendQ

end Learn

/-! ### Route requests -/

section Requests

variable {M : Mesh} {a : Addr} {p : Packet β} {n : Node β}

theorem finishSendRtReq_ok (hn : n.Ok M S a) (ha : a ∈ M.hosts) (taddr : Addr) :
    (finishSendRtReq (M.host a) taddr n).Ok M S a := by
  have hflight : RequestFlight M a M.bcast
      (createDsrPacket (M.host a) M.bcast [.rtReq n.rtreqId taddr []] : Packet β)
      n.rtreqId taddr [] :=
    { opts := rfl, hop := rfl, daddr := rfl, payload := rfl, walk := .singleton _, last := rfl
      nodup := List.nodup_singleton _
      hosts := fun x hx => List.mem_singleton.mp hx ▸ ha
      target := List.not_mem_nil }
  exact { hn with jitterQ := Lists.forall_mem_snoc hn.jitterQ (.request hflight) }

theorem ReqTable.slot_spec {t : ReqTable} (hlen : t.entries.length = reqTableSize)
    (hsize : t.size = t.entries.countP RtReq.used) :
    ∃ e, t.entries[t.slot]? = some e ∧
      e.used = !decide (t.entries.countP RtReq.used < reqTableSize) := by
  rw [ReqTable.slot, hsize]
  apply SlotTable.slot_spec hlen (by decide) (SlotTable.lastFree_spec RtReq.used)
  intro hne hall
  obtain ⟨e, he, -⟩ := SlotTable.oldest_spec RtReq.used RtReq.time hne hall
  exact ⟨e, he⟩

theorem sendRtReq_ok (hn : n.Ok M S a) (ha : a ∈ M.hosts) (jiffies : ℕ) {taddr : Addr}
    (htaddr : taddr ≠ 0) : (sendRtReq (M.host a) jiffies taddr n).Ok M S a := by
  rw [sendRtReq]
  split
  · exact hn
  · apply finishSendRtReq_ok _ ha
    refine { hn with reqsLength := (List.length_modify ..).trans hn.reqsLength, reqsSize := ?_ }
    obtain ⟨e, he, hused⟩ := n.reqs.slot_spec hn.reqsLength hn.reqsSize
    have hnew : RtReq.used ⟨taddr, jiffies, reqPeriod, 1⟩ = true := bne_iff_ne.mpr htaddr
    have hcount :=
      SlotTable.countP_fill (f := fun _ => ⟨taddr, jiffies, reqPeriod, 1⟩) he hused hnew
    rw [← hn.reqsSize] at hcount
    exact hcount.symm

theorem rtReqTimeout_ok {i : ℕ} {e : RtReq} (hn : n.Ok M S a) (ha : a ∈ M.hosts)
    (hi : n.reqs.entries[i]? = some e) (hused : e.used) :
    ∃ n', rtReqTimeout (M.host a) i n = some n' ∧ n'.Ok M S a := by
  rw [rtReqTimeout, hi, Option.bind_some, if_pos hused]
  split
  · refine ⟨_, rfl, ?_⟩
    refine { finishSendRtReq_ok hn ha e.taddr with
      reqsLength := (List.length_modify ..).trans hn.reqsLength, reqsSize := ?_ }
    have hcount := SlotTable.countP_modify RtReq.used hi RtReq.retry
    have hretry : e.retry.used = e.used := rfl
    rw [hretry] at hcount
    have hsize := hn.reqsSize
    simp only
    omega
  · refine ⟨_, rfl, ?_⟩
    refine { hn with reqsLength := (List.length_modify ..).trans hn.reqsLength, reqsSize := ?_ }
    have hcount := SlotTable.countP_modify RtReq.used hi RtReq.clear
    rw [if_pos hused, RtReq.clear_used, if_neg Bool.false_ne_true] at hcount
    have hsize := hn.reqsSize
    simp only
    omega

end Requests

end WirelessMesh.Dsr
