import WirelessMesh.Dsr.Flight

/-!
# What a node of a mesh does with the packets it hears

A packet that comes over a link from a host that sent it as the module does is gone through
without a fault, and what is sent on, or in answer, is again as the module sends it. A request
has no more relays than there are other hosts, so that its list fits an entry of the route
cache in a mesh of sixteen hosts.
-/

namespace WirelessMesh.Dsr

variable {β : Type*} {S : Addr → Addr → Data β → Prop} {M : Mesh} {a c hop : Addr} {p : Packet β}
  {n : Node β}

/-! ### Requests -/

theorem RequestFlight.length_le {ident : Ident} {taddr : Addr} {addr : List Addr}
    (h : RequestFlight M c hop p ident taddr addr) (hfew : M.hosts.card ≤ maxRouteLen + 1) :
    addr.length ≤ maxRouteLen := by
  have hsub : (p.saddr :: addr).toFinset ⊆ M.hosts :=
    fun x hx => h.hosts x (List.mem_toFinset.mp hx)
  have hcard := Finset.card_le_card hsub
  rw [List.toFinset_card_of_nodup h.nodup, List.length_cons] at hcard
  omega

theorem RequestFlight.bcast_notMem {ident : Ident} {taddr : Addr} {addr : List Addr}
    (h : RequestFlight M c hop p ident taddr addr) : M.bcast ∉ addr := fun hmem =>
  M.bcast_notMem (h.hosts _ (List.mem_cons_of_mem _ hmem))

theorem RequestFlight.walk_snoc {ident : Ident} {taddr : Addr} {addr : List Addr}
    (h : RequestFlight M c hop p ident taddr addr) (hlink : M.link c a) :
    (p.saddr :: addr ++ [a]).IsChain M.link := by
  rw [List.isChain_append]
  refine ⟨h.walk, .singleton a, ?_⟩
  intro x hx y hy
  rw [h.last] at hx
  obtain rfl : c = x := Option.some.inj hx
  obtain rfl : a = y := Option.some.inj hy
  exact hlink

theorem sendRtReply_ok {ident : Ident} {addr : List Addr} {taddr : Addr} (hn : n.Ok M S a)
    (ha : a ∈ M.hosts) (h : RequestFlight M c hop p ident taddr addr) (hlink : M.link c a)
    (hfew : M.hosts.card ≤ maxRouteLen + 1) (hself : p.saddr ≠ a) (htarget : taddr = a) :
    (sendRtReply (M.host a) p.saddr ident addr n).Ok M S a := by
  have hlen := h.length_le hfew
  apply sendAlong_ok hn ha (h.hosts _ List.mem_cons_self)
  · intro q hsaddr hdaddr o ho
    rcases List.mem_cons.mp ho with rfl | ho
    · trivial
    · rw [List.mem_singleton.mp ho]
      refine ⟨?_, ?_, hlen, fun x hx => h.hosts x (List.mem_cons_of_mem _ hx)⟩
      · rw [hsaddr, hdaddr]
        exact h.walk_snoc hlink
      · rw [hsaddr, hdaddr, List.nodup_append]
        refine ⟨h.nodup, List.nodup_singleton a, ?_⟩
        intro x hx y hy
        rw [List.mem_singleton.mp hy]
        rintro rfl
        rcases List.mem_cons.mp hx with hx | hx
        · exact hself hx.symm
        · exact h.target (htarget ▸ hx)
  · rwa [List.length_reverse]
  · exact fun hmem => h.bcast_notMem (List.mem_reverse.mp hmem)

theorem rebcastRtReq_ok {ident : Ident} {taddr : Addr} {addr : List Addr} (hn : n.Ok M S a)
    (ha : a ∈ M.hosts) (h : RequestFlight M c hop p ident taddr addr) (hlink : M.link c a)
    (hself : p.saddr ≠ a) (htarget : taddr ≠ a) (hlisted : addr.contains a = false) :
    (rebcastRtReq (M.host a) p ident taddr addr n).Ok M S a := by
  have hnotin : a ∉ addr := by simpa using hlisted
  have hflight : RequestFlight M a M.bcast
      { p with opts := [.rtReq ident taddr (addr ++ [a])] } ident taddr (addr ++ [a]) :=
    { opts := rfl, hop := rfl, daddr := h.daddr, payload := h.payload
      walk := h.walk_snoc hlink
      last := by rw [← List.cons_append, List.getLast?_concat]
      nodup := by
        rw [← List.cons_append, List.nodup_append]
        refine ⟨h.nodup, List.nodup_singleton a, ?_⟩
        intro x hx y hy
        rw [List.mem_singleton.mp hy]
        rintro rfl
        rcases List.mem_cons.mp hx with hx | hx
        · exact hself hx.symm
        · exact hnotin hx
      hosts := by
        rw [← List.cons_append]
        exact Lists.forall_mem_snoc h.hosts ha
      target := by
        intro hmem
        rcases List.mem_append.mp hmem with hmem | hmem
        · exact h.target hmem
        · exact htarget (List.mem_singleton.mp hmem) }
  exact { hn with jitterQ := Lists.forall_mem_snoc hn.jitterQ (.request hflight) }

theorem procRtReqOpt_ok {ident : Ident} {taddr : Addr} {addr : List Addr} (hn : n.Ok M S a)
    (ha : a ∈ M.hosts) (h : RequestFlight M c hop p ident taddr addr) (hlink : M.link c a)
    (hfew : M.hosts.card ≤ maxRouteLen + 1) (now : ℕ) :
    ∃ n', procRtReqOpt (M.host a) now p ident taddr addr n = some n' ∧ n'.Ok M S a := by
  rw [procRtReqOpt]
  split
  · exact ⟨n, rfl, hn⟩
  · next hself =>
      obtain ⟨n₁, hadd, hn₁⟩ := addRoutes_ok hn ha now
        (reverseOffers_ok (M.host a).subnet (h.length_le hfew) h.bcast_notMem
          (Mesh.ne_bcast (h.hosts _ List.mem_cons_self)))
      rw [addReverseRoute, hadd, Option.bind_some]
      split
      · next htarget => exact ⟨_, rfl, sendRtReply_ok hn₁ ha h hlink hfew hself htarget⟩
      · next htarget =>
          have hzero : p.saddr ≠ 0 := fun h0 =>
            M.zero_notMem (h0 ▸ h.hosts _ List.mem_cons_self)
          obtain ⟨r, hpass, hlisted, hlen, hsize⟩ :=
            passRequest_count now ident (addr.contains a) hn₁.idsLength hn₁.idsSize hzero
          have hids : Node.Ok M S a { n₁ with ids := r.1 } :=
            { hn₁ with idsLength := hlen, idsSize := hsize }
          have hpass : passRequest now p.saddr ident (addr.contains (M.host a).ipaddr) n₁.ids =
            some r := hpass
          rw [hpass, Option.map_some]
          by_cases hr : r.2 = true
          · rw [if_pos hr]
            exact ⟨_, rfl, rebcastRtReq_ok hids ha h hlink hself htarget (hlisted hr)⟩
          · rw [if_neg hr]
            exact ⟨_, rfl, hids⟩

theorem preRoute_request_ok {ident : Ident} {taddr : Addr} {addr : List Addr} (hn : n.Ok M S a)
    (ha : a ∈ M.hosts) (h : RequestFlight M c hop p ident taddr addr) (hlink : M.link c a)
    (hfew : M.hosts.card ≤ maxRouteLen + 1) (now : ℕ) (beyond : ℕ → Addr) :
    ∃ n', preRoute (M.host a) now beyond p n = some n' ∧ n'.Ok M S a := by
  obtain ⟨n', hproc, hn'⟩ := procRtReqOpt_ok hn ha h hlink hfew now
  refine ⟨n', ?_, hn'⟩
  rw [preRoute, h.opts, procOpts, procOpt, hproc]
  change some (finishPacket (M.host a) p _ n') = some n'
  rw [finishPacket, if_pos (.inr h.daddr), h.payload]
  rfl

/-! ### Acknowledgements -/

theorem mem_of_mem_turnOut {ident : Ident} {qLen : ℕ} {us : List (Unacked β)} {u : Unacked β}
    (h : u ∈ turnOut ident qLen us) : u ∈ us := by
  have hmem : ∀ i j, u ∈ us.drop i ++ us.take j → u ∈ us := fun i j h =>
    (List.mem_append.mp h).elim List.mem_of_mem_drop List.mem_of_mem_take
  rw [turnOut] at h
  cases hfind : (us.take qLen).findIdx? fun u => u.ident == ident with
  | none =>
      rw [hfind] at h
      exact hmem _ _ h
  | some i =>
      rw [hfind] at h
      exact hmem _ _ h

theorem procAckReplyOpt_ok (hn : n.Ok M S a) (ha : a ∈ M.hosts) (now : ℕ)
    (hsaddr : p.saddr ≠ M.bcast) (ident : Ident) :
    ∃ n', procAckReplyOpt (M.host a) now p ident n = some n' ∧ n'.Ok M S a := by
  obtain ⟨n₁, hadd, hn₁⟩ := addRoutes_ok hn ha now
    (forwardOffers_ok (M.host a).subnet (Nat.zero_le _) List.not_mem_nil
      (fun _ => M.bcast_ne_zero.symm) hsaddr)
  refine ⟨{ n₁ with rxmtQ := turnOut ident n.rxmtQ.length n₁.rxmtQ }, ?_, ?_⟩
  · rw [procAckReplyOpt, addForwardRoute, hadd]
    rfl
  · exact { hn₁ with rxmtQ := fun u hu => hn₁.rxmtQ u (mem_of_mem_turnOut hu) }

theorem preRoute_ack_ok (hn : n.Ok M S a) (ha : a ∈ M.hosts) (hc : c ∈ M.hosts)
    (h : AckFlight M c hop p) (hhop : hop = a) (now : ℕ) (beyond : ℕ → Addr) :
    ∃ n', preRoute (M.host a) now beyond p n = some n' ∧ n'.Ok M S a := by
  obtain ⟨ident, saddr, daddr, hopts⟩ := h.opts
  obtain ⟨n', hproc, hn'⟩ :=
    procAckReplyOpt_ok hn ha now (h.saddr ▸ Mesh.ne_bcast hc) ident
  refine ⟨n', ?_, hn'⟩
  rw [preRoute, hopts, procOpts, procOpt, hproc]
  change some (finishPacket (M.host a) p _ n') = some n'
  rw [finishPacket, if_pos (.inl (h.hop.symm.trans hhop)), h.payload]
  rfl

/-! ### Packets with a source route -/

theorem sendAckReply_ok (hn : n.Ok M S a) (ha : a ∈ M.hosts) (hc : c ∈ M.hosts) (ident : Ident) :
    (sendAckReply (M.host a) ident c n).Ok M S a := by
  rw [sendAckReply, Mesh.host_nextHop (Mesh.subnet_host ha) (Mesh.subnet_host hc),
    Option.elim_some]
  exact output_ok hn (.ack ⟨⟨ident, a, c, rfl⟩, rfl, hc, rfl, rfl⟩)

theorem procRtReplyOpt_ok {ident : Ident} {addr : List Addr} (hn : n.Ok M S a) (ha : a ∈ M.hosts)
    (ho : OptOk M c p (.rtReply ident addr)) (hsaddr : p.saddr ≠ M.bcast) (now : ℕ)
    {beyond : ℕ → Addr} (hbeyond : ∀ k, beyond k ≠ M.bcast) :
    ∃ n', procRtReplyOpt (M.host a) now beyond p addr n = some n' ∧ n'.Ok M S a := by
  obtain ⟨-, -, hlen, hhosts⟩ := ho
  rw [procRtReplyOpt]
  split
  · exact addRoutes_ok hn ha now (forwardOffers_ok (M.host a).subnet hlen
      (fun hmem => M.bcast_notMem (hhosts _ hmem)) hbeyond hsaddr)
  · exact ⟨n, rfl, hn⟩

/-- An option besides the source route is gone through without a fault; the acknowledgement
request of a packet that goes on is made this host's own. -/
theorem procOpt_ok {o : Opt} (hn : n.Ok M S a) (ha : a ∈ M.hosts) (hc : c ∈ M.hosts)
    (ho : OptOk M c p o) (hsaddr : p.saddr ≠ M.bcast) (now : ℕ) {beyond : ℕ → Addr}
    (hbeyond : ∀ k, beyond k ≠ M.bcast) (q : Passing) :
    ∃ n' o' ackreq, procOpt (M.host a) now beyond p o q n =
        some (n', some ⟨q.done ++ [o'], ackreq, q.nextHop⟩) ∧ n'.Ok M S a ∧
      (forwards (M.host a) p = true → OptOk M a p o') := by
  cases o with
  | pad => exact ⟨n, .pad, q.ackreq, rfl, hn, fun _ => trivial⟩
  | rtReply ident addr =>
      obtain ⟨n', hproc, hn'⟩ := procRtReplyOpt_ok hn ha ho hsaddr now hbeyond
      exact ⟨n', .rtReply ident addr, q.ackreq, by rw [procOpt, hproc]; rfl, hn', fun _ => ho⟩
  | rtErr errsaddr errdaddr typeinfo =>
      exact ⟨_, _, q.ackreq, rfl, { hn with cache := removeRoute_room hn.cache _ _ _ },
        fun _ => trivial⟩
  | ackReq ident saddr =>
      obtain rfl : saddr = c := ho
      have hack := sendAckReply_ok hn ha hc ident
      rw [procOpt]
      split
      · exact ⟨_, _, true, rfl, hack.setAckId _, fun _ => rfl⟩
      · next hfwd => exact ⟨_, _, true, rfl, hack, fun h => absurd h hfwd⟩
  | rtReq ident taddr addr => exact ho.elim
  | ack ident saddr daddr => exact ho.elim
  | srcRt segsLeft addr => exact ho.elim
  | unknown => exact ho.elim

theorem procOpts_ok {os : List Opt} (hn : n.Ok M S a) (ha : a ∈ M.hosts) (hc : c ∈ M.hosts)
    (hos : ∀ o ∈ os, OptOk M c p o) (hsaddr : p.saddr ≠ M.bcast) (now : ℕ) {beyond : ℕ → Addr}
    (hbeyond : ∀ k, beyond k ≠ M.bcast) (q : Passing) :
    ∃ n' os' ackreq, procOpts (M.host a) now beyond p os q n =
        some (n', some ⟨q.done ++ os', ackreq, q.nextHop⟩) ∧ n'.Ok M S a ∧
      (forwards (M.host a) p = true → ∀ o ∈ os', OptOk M a p o) := by
  induction os generalizing n q with
  | nil => exact ⟨n, [], q.ackreq, by rw [procOpts, List.append_nil], hn, by simp⟩
  | cons o os ih =>
      obtain ⟨n₁, o', ackreq, hproc, hn₁, ho'⟩ :=
        procOpt_ok hn ha hc (hos o List.mem_cons_self) hsaddr now hbeyond q
      obtain ⟨n', os', ackreq', hprocs, hn', hos'⟩ :=
        ih hn₁ (fun x hx => hos x (List.mem_cons_of_mem o hx)) ⟨q.done ++ [o'], ackreq, q.nextHop⟩
      refine ⟨n', o' :: os', ackreq', ?_, hn', ?_⟩
      · rw [procOpts, hproc, Option.bind_some, Option.elim_some, hprocs, List.append_assoc]
        rfl
      · intro hfwd x hx
        rcases List.mem_cons.mp hx with rfl | hx
        · exact ho' hfwd
        · exact hos' hfwd x hx

theorem procOpts_append (h : Host) (now : ℕ) (beyond : ℕ → Addr) (os os' : List Opt)
    (q : Passing) :
    procOpts h now beyond p (os ++ os') q n =
      (procOpts h now beyond p os q n).bind fun r =>
        r.2.elim (some (r.1, none)) fun q => procOpts h now beyond p os' q r.1 := by
  induction os generalizing q n with
  | nil => rfl
  | cons o os ih =>
      rw [List.cons_append, procOpts, procOpts, Option.bind_assoc]
      congr 1
      funext r
      cases hr : r.2 with
      | none => rfl
      | some q => exact ih q

theorem RoutedFlight.hop_ne {segsLeft : ℕ} {addr : List Addr}
    (h : RoutedFlight M S c hop p segsLeft addr) : hop ≠ M.bcast := by
  rcases h.hop with hhop | ⟨-, -, rfl⟩
  · rintro rfl
    refine Mesh.host_nextHop_ne ?_ hhop
    cases hdrop : addr.drop (addr.length - segsLeft) with
    | nil => exact h.daddr_ne
    | cons x rest =>
        have hmem : x ∈ addr := List.mem_of_mem_drop (hdrop ▸ List.mem_cons_self)
        exact fun heq => h.noBcast (heq ▸ hmem)
  · exact h.daddr_ne

/-- A packet that comes to a relay has a segment left, and was sent to where the kernel of the host
before sends what is for that relay. -/
theorem RoutedFlight.relay {segsLeft : ℕ} {addr : List Addr}
    (h : RoutedFlight M S c hop p segsLeft addr) (hc : c ∈ M.hosts) (hdaddr : p.daddr ≠ hop) :
    0 < segsLeft ∧ ∃ x, addr[addr.length - segsLeft]? = some x ∧
      (M.host c).nextHop x = some hop := by
  have hsegs := h.segs
  have hhop := h.hop.resolve_right fun hstray => hdaddr hstray.2.2.symm
  rw [firstHop] at hhop
  rcases Nat.eq_zero_or_pos segsLeft with rfl | hpos
  · rw [Nat.sub_zero, List.drop_length, List.headD_nil,
      Mesh.host_nextHop (Mesh.subnet_host hc) h.daddr] at hhop
    exact absurd (Option.some.inj hhop) hdaddr
  · have hlt : addr.length - segsLeft < addr.length := by omega
    rw [List.drop_eq_getElem_cons hlt, List.headD_cons] at hhop
    exact ⟨hpos, _, List.getElem?_eq_getElem hlt, hhop⟩

theorem RoutedFlight.came_succ {segsLeft : ℕ} {addr : List Addr}
    (h : RoutedFlight M S c hop p segsLeft addr) (hc : c ∈ M.hosts) (hdaddr : p.daddr ≠ hop)
    (hlink : M.link c hop) :
    M.Follows p.saddr (addr.take (addr.length - segsLeft + 1)) hop := by
  obtain ⟨-, x, hx, hhop⟩ := h.relay hc hdaddr
  rw [List.take_add_one, hx]
  exact h.came.snoc hhop hlink

theorem RoutedFlight.forward {segsLeft : ℕ} {addr : List Addr} {pre post : List Opt} {next : Addr}
    (h : RoutedFlight M S c a p segsLeft addr) (ttl : ℕ) (hc : c ∈ M.hosts) (hlink : M.link c a)
    (hdaddr : p.daddr ≠ a) (hok : ∀ o ∈ pre ++ post, OptOk M a p o)
    (hnext : firstHop (M.host a) p.daddr (addr.drop (addr.length - (segsLeft - 1))) = some next) :
    RoutedFlight M S a next
      { p with opts := pre ++ .srcRt (segsLeft - 1) addr :: post, ttl := ttl } (segsLeft - 1)
      addr := by
  have hpos := (h.relay hc hdaddr).1
  have hsegs := h.segs
  refine ⟨⟨pre, post, rfl, hok⟩, by omega, h.length, h.noBcast, h.source, h.daddr, h.daddr_ne,
    ?_, .inl hnext, h.carries⟩
  rw [show addr.length - (segsLeft - 1) = addr.length - segsLeft + 1 by omega]
  exact h.came_succ hc hdaddr hlink

theorem procSrcRtOpt_forward {segsLeft : ℕ} {addr : List Addr} (hn : n.Ok M S a) (ha : a ∈ M.hosts)
    (hc : c ∈ M.hosts) (h : RoutedFlight M S c a p segsLeft addr) (hdaddr : p.daddr ≠ a) (now : ℕ)
    {beyond : ℕ → Addr} (hbeyond : ∀ k, beyond k ≠ M.bcast) :
    ∃ n', procSrcRtOpt (M.host a) now beyond p segsLeft addr n =
        some (if p.ttl = 1 then (n', some (segsLeft - 1, none))
          else (n', (firstHop (M.host a) p.daddr (addr.drop (addr.length - (segsLeft - 1)))).map
            fun hop => (segsLeft - 1, some hop))) ∧
      n'.Ok M S a := by
  have hsubnet := Mesh.host_subnet (Mesh.subnet_host ha) h.daddr
  have hlen := h.length
  have hnot : ¬(p.daddr = (M.host a).ipaddr ∨
      ((M.host a).gw = true ∧ (M.host a).subnet p.daddr = false)) := by
    rw [hsubnet]
    rintro (heq | ⟨-, hfalse⟩)
    · exact hdaddr heq
    · cases hfalse
  have hdrop : (addr.drop (addr.length - (segsLeft - 1))).length ≤ maxRouteLen := by
    rw [List.length_drop]
    omega
  have htake : (addr.take (addr.length - (segsLeft - 1) - 1)).length ≤ maxRouteLen := by
    rw [List.length_take]
    omega
  obtain ⟨n₁, hfwd, hn₁⟩ := addRoutes_ok hn ha now (forwardOffers_ok (M.host a).subnet hdrop
    (fun hmem => h.noBcast (List.mem_of_mem_drop hmem)) hbeyond h.daddr_ne)
  obtain ⟨n₂, hrev, hn₂⟩ := addRoutes_ok hn₁ ha now (reverseOffers_ok (M.host a).subnet htake
    (fun hmem => h.noBcast (List.mem_of_mem_take hmem)) (Mesh.ne_bcast h.source))
  refine ⟨n₂, ?_, hn₂⟩
  rw [procSrcRtOpt, if_neg hnot, if_pos ⟨(h.relay hc hdaddr).1, h.segs⟩]
  simp only [addForwardRoute, addReverseRoute]
  rw [hfwd, Option.bind_some, hrev]
  rfl

theorem procSrcRtOpt_arrived {segsLeft : ℕ} {addr : List Addr} (hn : n.Ok M S a) (ha : a ∈ M.hosts)
    (h : RoutedFlight M S c a p segsLeft addr) (hdaddr : p.daddr = a) (now : ℕ)
    (beyond : ℕ → Addr) :
    ∃ n', procSrcRtOpt (M.host a) now beyond p segsLeft addr n =
        some (n', some (segsLeft, none)) ∧ n'.Ok M S a := by
  obtain ⟨n', hrev, hn'⟩ := addRoutes_ok hn ha now
    (reverseOffers_ok (M.host a).subnet h.length h.noBcast (Mesh.ne_bcast h.source))
  refine ⟨n', ?_, hn'⟩
  rw [procSrcRtOpt, if_pos (.inl hdaddr), addReverseRoute, hrev]
  rfl

theorem finishPacket_arrived (hn : n.Ok M S a) (hdaddr : p.daddr = a) (hfrom : p.From S)
    (q : Passing) : (finishPacket (M.host a) p q n).Ok M S a := by
  rw [finishPacket, if_pos (.inl hdaddr)]
  split
  · exact hn
  · next hbytes =>
      have hgiven := hfrom fun h => hbytes (List.isEmpty_iff.mpr h)
      exact { hn with delivered := Lists.forall_mem_snoc hn.delivered ⟨hgiven, hdaddr⟩ }

/-- A packet that is not for this host goes on to the next one, unless its time is up. -/
theorem finishPacket_forward {q : Passing} (hn : n.Ok M S a) (ha : a ∈ M.hosts)
    (hsubnet : M.Subnet p.daddr) (hne : p.daddr ≠ M.bcast) (hdaddr : p.daddr ≠ a)
    (hflight : p.ttl ≠ 1 → ∃ hop, q.nextHop = some hop ∧
      ∀ ttl, Flight M S a hop { p with opts := q.done, ttl := ttl } ∧
        Packet.Held M { p with opts := q.done, ttl := ttl }) :
    (finishPacket (M.host a) p q n).Ok M S a := by
  have hgw : ¬((M.host a).gw = true ∧ (M.host a).subnet p.daddr = false) := by
    rw [Mesh.host_subnet (Mesh.subnet_host ha) hsubnet]
    exact fun h => Bool.noConfusion h.2
  have hself : ¬(p.daddr = (M.host a).ipaddr ∨ p.daddr = (M.host a).bcast) :=
    not_or.mpr ⟨hdaddr, hne⟩
  rw [finishPacket, if_neg hself, if_neg hgw]
  split
  · exact hn
  · next httl =>
      obtain ⟨hop, hnext, hflight⟩ := hflight httl
      rw [hnext, Option.some_or, Option.elim_some]
      apply output_ok _ (hflight _).1
      split
      · exact ackQAdd_ok hn (hflight p.ttl).2 _
      · exact hn

theorem preRoute_arrived_ok {segsLeft : ℕ} {addr : List Addr} (hn : n.Ok M S a) (ha : a ∈ M.hosts)
    (hc : c ∈ M.hosts) (h : RoutedFlight M S c a p segsLeft addr) (hdaddr : p.daddr = a) (now : ℕ)
    {beyond : ℕ → Addr} (hbeyond : ∀ k, beyond k ≠ M.bcast) :
    ∃ n', preRoute (M.host a) now beyond p n = some n' ∧ n'.Ok M S a := by
  obtain ⟨pre, post, hopts, hok⟩ := h.opts
  have hsaddr := Mesh.ne_bcast h.source
  obtain ⟨n₁, pre', ackreq₁, hpre, hn₁, -⟩ := procOpts_ok hn ha hc
    (fun o ho => hok o (List.mem_append_left post ho)) hsaddr now hbeyond ⟨[], false, none⟩
  obtain ⟨n₂, hsrc, hn₂⟩ := procSrcRtOpt_arrived hn₁ ha h hdaddr now beyond
  obtain ⟨n₃, post', ackreq₃, hpost, hn₃, -⟩ := procOpts_ok hn₂ ha hc
    (fun o ho => hok o (List.mem_append_right pre ho)) hsaddr now hbeyond
    ⟨[] ++ pre' ++ [.srcRt segsLeft addr], ackreq₁, none⟩
  rw [preRoute, hopts, procOpts_append, hpre, Option.bind_some, Option.elim_some, procOpts, procOpt,
    hsrc, Option.map_some, Option.bind_some, Option.map_some, Option.elim_some, hpost,
    Option.map_some, Option.elim_some]
  exact ⟨_, rfl, finishPacket_arrived hn₃ hdaddr h.carries _⟩

theorem preRoute_forward_ok {segsLeft : ℕ} {addr : List Addr} (hn : n.Ok M S a) (ha : a ∈ M.hosts)
    (hc : c ∈ M.hosts) (h : RoutedFlight M S c a p segsLeft addr) (hlink : M.link c a)
    (hdaddr : p.daddr ≠ a) (now : ℕ) {beyond : ℕ → Addr} (hbeyond : ∀ k, beyond k ≠ M.bcast) :
    ∃ n', preRoute (M.host a) now beyond p n = some n' ∧ n'.Ok M S a := by
  obtain ⟨pre, post, hopts, hok⟩ := h.opts
  have hsaddr := Mesh.ne_bcast h.source
  have hfwd : forwards (M.host a) p = true := by
    rw [forwards, Mesh.host_subnet (Mesh.subnet_host ha) h.daddr, Bool.or_true, Bool.and_true]
    exact bne_iff_ne.mpr hdaddr
  obtain ⟨n₁, pre', ackreq₁, hpre, hn₁, hpre'⟩ := procOpts_ok hn ha hc
    (fun o ho => hok o (List.mem_append_left post ho)) hsaddr now hbeyond ⟨[], false, none⟩
  obtain ⟨n₂, hsrc, hn₂⟩ := procSrcRtOpt_forward hn₁ ha hc h hdaddr now hbeyond
  rw [preRoute, hopts, procOpts_append, hpre, Option.bind_some, Option.elim_some, procOpts, procOpt,
    hsrc, Option.map_some, Option.bind_some]
  -- the options behind the source route, with the hop that it leads to
  have hrest : ∀ next : Option Addr, (p.ttl ≠ 1 → ∃ hop, next = some hop ∧
      firstHop (M.host a) p.daddr (addr.drop (addr.length - (segsLeft - 1))) = some hop) →
      ∃ n', ((procOpts (M.host a) now beyond p post
          ⟨[] ++ pre' ++ [.srcRt (segsLeft - 1) addr], ackreq₁, next⟩ n₂).map fun r =>
        r.2.elim r.1 fun q => finishPacket (M.host a) p q r.1) = some n' ∧ n'.Ok M S a := by
    intro next hnext
    obtain ⟨n₃, post', ackreq₃, hpost, hn₃, hpost'⟩ := procOpts_ok hn₂ ha hc
      (fun o ho => hok o (List.mem_append_right pre ho)) hsaddr now hbeyond
      ⟨[] ++ pre' ++ [.srcRt (segsLeft - 1) addr], ackreq₁, next⟩
    rw [hpost, Option.map_some, Option.elim_some]
    refine ⟨_, rfl, finishPacket_forward hn₃ ha h.daddr h.daddr_ne hdaddr ?_⟩
    intro httl
    obtain ⟨hop, rfl, hfirst⟩ := hnext httl
    refine ⟨hop, rfl, ?_⟩
    intro ttl
    have hopts' : ∀ o ∈ pre' ++ post', OptOk M a p o :=
      List.forall_mem_append.mpr ⟨hpre' hfwd, hpost' hfwd⟩
    have hflight := h.forward ttl hc hlink hdaddr hopts' hfirst
    simp only [List.nil_append, List.append_assoc, List.singleton_append]
    exact ⟨.routed hflight, hflight.held⟩
  by_cases httl : p.ttl = 1
  · rw [if_pos httl]
    exact hrest none fun h => absurd httl h
  · rw [if_neg httl]
    cases hfirst : firstHop (M.host a) p.daddr (addr.drop (addr.length - (segsLeft - 1))) with
    | none => exact ⟨n₂, rfl, hn₂⟩
    | some hop => exact hrest (some hop) fun _ => ⟨hop, rfl, hfirst⟩

/-- A packet that comes over a link is gone through without a fault, and what the host sends then
is as the module sends it. -/
theorem preRoute_ok (hn : n.Ok M S a) (ha : a ∈ M.hosts) (hc : c ∈ M.hosts) (h : Flight M S c hop p)
    (hlink : M.link c a) (hhop : hop = a ∨ hop = M.bcast)
    (hfew : M.hosts.card ≤ maxRouteLen + 1) (now : ℕ) {beyond : ℕ → Addr}
    (hbeyond : ∀ k, beyond k ≠ M.bcast) :
    ∃ n', preRoute (M.host a) now beyond p n = some n' ∧ n'.Ok M S a := by
  cases h with
  | request h => exact preRoute_request_ok hn ha h hlink hfew now beyond
  | routed h =>
      obtain rfl := hhop.resolve_right h.hop_ne
      by_cases hdaddr : p.daddr = hop
      · exact preRoute_arrived_ok hn ha hc h hdaddr now hbeyond
      · exact preRoute_forward_ok hn ha hc h hlink hdaddr now hbeyond
  | ack h =>
      have hne : hop ≠ M.bcast := fun heq => M.bcast_notMem (heq ▸ h.hop ▸ h.daddr)
      exact preRoute_ack_ok hn ha hc h (hhop.resolve_right hne) now beyond

end WirelessMesh.Dsr
