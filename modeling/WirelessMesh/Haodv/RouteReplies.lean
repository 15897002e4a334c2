import WirelessMesh.Haodv.Growth

/-!
# What a RREP leaves in the route table

A RREP should leave a valid route to its destination through the neighbour that sent it,
whenever it brings news: there was no entry, its number is newer, or the number is the
same and mends an invalid entry or shortens the route.

`_dev_rx_reply` hands `_route_update` the IP address of the destination in place of a
pointer to it, so address and number are read from whatever lies there. And
`_route_update` refuses an equal number: also that of the entry it has just inserted,
which starts with the number of the update.
-/

namespace WirelessMesh
namespace Haodv

open Routes SerialOrder

variable {conf : NodeConf} {env : Env}

/-! ## The rule -/

/-- The route is news for the entry that the lookup found. -/
def IsNews (seq : U32) (metric : U8) : Option (ℕ × MeshRoute) → Prop
  | none => True
  | some (_, route) =>
      0 < ahead seq route.seq ∨
        (seq = route.seq ∧ (route.routeValid = false ∨ metric < route.metric))

instance (seq : U32) (metric : U8) : (found : Option (ℕ × MeshRoute)) →
    Decidable (IsNews seq metric found)
  | none => .isTrue trivial
  | some (_, _) => inferInstanceAs (Decidable (_ ∨ _ ∧ (_ ∨ _)))

structure LeadsTo (neighs : NeighList) (sender seq : U32) (metric : ℕ) (route : MeshRoute) :
    Prop where
  valid : route.routeValid = true
  seq : route.seq = seq
  metric : route.metric.toNat = metric
  nextHop : ∃ p neigh, route.nextHop = some p ∧ neighs.get? p = some neigh ∧
    neigh.address.address = sender

def Installed (dest sender seq : U32) (metric : ℕ) (node : RouteNode) : Prop :=
  ∃ c, node.routes.find? (routeCompare dest) = some c ∧
    LeadsTo node.neighs sender seq metric c.2

/-- The number that an update for the destination is compared with, if it finds an entry:
a sender that is not known yet gets one of its own, in front of any other. -/
def storedSeq (env : Env) (task : PduTask) (dest : U32) (node : RouteNode) : Option U32 :=
  if neighLookup task node.neighs = none ∧ task.header.src.address = dest then
    some task.header.src.sequence
  else (routeLookup env dest node.routes).2.map fun c => c.2.seq

/-! ## Lookups -/

variable (env) in
theorem find?_routeLookup (a dest : U32) (t : RouteTable) :
    (t.find? (routeCompare dest) = none ∧
        (routeLookup env a t).1.find? (routeCompare dest) = none) ∨
      ∃ p r r', t.find? (routeCompare dest) = some (p, r) ∧
        (routeLookup env a t).1.find? (routeCompare dest) = some (p, r') ∧
        (r' = r ∨ r' = ageRoute env r) := by
  have hwalk : HeapList.Pointwise (fun r r' => r' = r ∨ r' = ageRoute env r) t
      (routeLookup env a t).1 :=
    HeapList.walk_pointwise (fun _ => .inl rfl) (fun _ => .inr rfl) _ t
  refine hwalk.find?_eq ?_
  rintro r r' (rfl | rfl)
  · rfl
  · exact (ageRoute_spent env r).routeCompare_eq dest

/-! ## Entries that are not the route -/

def Unfit (seq : U32) (metric : U8) (r : MeshRoute) : Prop :=
  r.routeValid = true → r.seq = seq → r.metric ≠ metric

/-- If the table shows an entry for the destination, it is not the route. -/
def ShowsUnfit (dest seq : U32) (metric : U8) (t : RouteTable) : Prop :=
  ∀ c, t.find? (routeCompare dest) = some c → Unfit seq metric c.2

variable {dest seq : U32} {metric : U8}

theorem unfit_of_invalid {r : MeshRoute} (h : r.routeValid = false) : Unfit seq metric r := by
  intro hvalid
  simp [h] at hvalid

theorem Unfit.spent {r r' : MeshRoute} (h : Unfit seq metric r) (hspent : Spent r r') :
    Unfit seq metric r' := by
  rcases hspent with rfl | hexpired
  · exact h
  · exact unfit_of_invalid hexpired.routeValid

theorem Unfit.not_leadsTo {r : MeshRoute} (h : Unfit seq metric r) (neighs : NeighList)
    (sender : U32) : ¬LeadsTo neighs sender seq metric.toNat r :=
  fun hroute => h hroute.valid hroute.seq (BitVec.eq_of_toNat_eq hroute.metric)

/-- An entry for which the route is news is another one, also before it is aged. -/
theorem unfit_of_isNews {p : ℕ} {r : MeshRoute}
    (h : IsNews seq metric (some (p, ageRoute env r))) : Unfit seq metric r := by
  rintro hvalid rfl rfl
  rcases ageRoute_cases env r with hsame | ⟨-, -, hnext⟩
  · rw [hsame] at h
    rcases h with hahead | ⟨-, hinvalid | hlonger⟩
    · simp at hahead
    · simp [hvalid] at hinvalid
    · exact BitVec.lt_irrefl _ hlonger
  · simp only [IsNews, hnext] at h
    rcases h with hahead | ⟨hsame, -⟩
    · have hone : ahead r.seq (r.seq + 1) = -1 := by
        rw [ahead, show r.seq - (r.seq + 1) = 0xffffffff by bv_omega]
        decide
      omega
    · bv_omega

theorem showsUnfit_of_isNews {t : RouteTable}
    (h : IsNews seq metric (routeLookup env dest t).2) : ShowsUnfit dest seq metric t := by
  intro c hc
  rw [routeLookup_snd, hc] at h
  exact unfit_of_isNews h

theorem ShowsUnfit.not_installed {node : RouteNode} (h : ShowsUnfit dest seq metric node.routes)
    (sender : U32) : ¬Installed dest sender seq metric.toNat node := by
  rintro ⟨c, hc, hroute⟩
  exact (h c hc).not_leadsTo _ _ hroute

variable (env) in
theorem ShowsUnfit.routeLookup {t : RouteTable} (h : ShowsUnfit dest seq metric t) (a : U32) :
    ShowsUnfit dest seq metric (routeLookup env a t).1 := by
  intro c hc
  rcases find?_routeLookup env a dest t with ⟨-, hnone⟩ | ⟨p, r, r', hr, hr', rfl | rfl⟩
  · simp [hnone] at hc
  · obtain rfl := Option.some.inj (hr'.symm.trans hc)
    exact h _ hr
  · obtain rfl := Option.some.inj (hr'.symm.trans hc)
    exact (h _ hr).spent (ageRoute_spent env r)

theorem find?_push (t : RouteTable) (r : MeshRoute) :
    (t.push r).find? (routeCompare dest) =
      if r.address.address = dest then some (t.next, r) else t.find? (routeCompare dest) := by
  by_cases h : r.address.address = dest
  · simp [HeapList.find?, routeCompare, h]
  · simp [HeapList.find?, routeCompare, h]

theorem ShowsUnfit.push {t : RouteTable} (h : ShowsUnfit dest seq metric t) {r : MeshRoute}
    (hr : r.routeValid = false) : ShowsUnfit dest seq metric (t.push r) := by
  intro c hc
  rw [find?_push] at hc
  split_ifs at hc
  · obtain rfl := Option.some.inj hc
    exact unfit_of_invalid hr
  · exact h c hc

theorem ShowsUnfit.modify {t : RouteTable} (h : ShowsUnfit dest seq metric t) {p : ℕ}
    {r : MeshRoute} (hr : (p, r) ∈ t.cells) (hne : r.address.address ≠ dest)
    {f : MeshRoute → MeshRoute} (hf : ∀ r, (f r).address = r.address) :
    ShowsUnfit dest seq metric (t.modify p f) := by
  intro c hc
  rw [HeapList.find?_modify p f _ fun r => by rw [routeCompare, routeCompare, hf],
    Option.map_eq_some_iff] at hc
  obtain ⟨b, hb, rfl⟩ := hc
  have hother : b.1 ≠ p := by
    rintro rfl
    obtain rfl := HeapList.eq_of_mem hr (HeapList.mem_of_find? hb)
    exact hne (address_of_find? hb)
  simpa only [if_neg hother] using h b hb

/-! ## The update -/

/-- `_route_update` writes an entry exactly if its number is older than the new one; the
test of the metric for an equal number is never reached. -/
theorem routeRenew_eq (a : AodvAddress) (hop : ℕ × RouteNeigh) (metric : U8) (p : ℕ)
    (r : MeshRoute) (t : RouteTable) :
    routeRenew env a (some hop) metric p r t =
      some (if seqGreater r.seq a.sequence then t
        else t.modify p (routeAccept env a hop metric)) := by
  unfold routeRenew
  by_cases hs : seqGreater r.seq a.sequence = true
  · rw [if_pos hs, if_pos hs]
  · have hne : (a.sequence == r.seq) = false := by
      rw [beq_eq_false_iff_ne]
      intro heq
      simp [heq, seqGreater] at hs
    rw [if_neg hs, if_neg hs, hne]
    simp

variable {a : AodvAddress} {hop : ℕ × RouteNeigh} {t : RouteTable}

theorem routeUpdate_written {c : ℕ × MeshRoute} (hfound : (routeLookup env a.address t).2 = some c)
    (hs : seqGreater c.2.seq a.sequence = false) :
    routeUpdate conf env a (some hop) metric t =
      some ((routeLookup env a.address t).1.modify c.1 (routeAccept env a hop metric), 0) := by
  unfold routeUpdate
  rw [← Prod.mk.eta (p := routeLookup env a.address t), hfound]
  simp [routeRenew_eq, hs]

variable (conf hop) in
/-- Otherwise the table is as the lookup left it, but perhaps for a blank entry. -/
theorem routeUpdate_refused (hmem : env.mem .route = true)
    (hs : ∀ c, (routeLookup env a.address t).2 = some c → seqGreater c.2.seq a.sequence = true) :
    ∃ t', routeUpdate conf env a (some hop) metric t = some (t', 0) ∧
      (t' = (routeLookup env a.address t).1 ∨
        t' = (routeLookup env a.address t).1.push (routeNew conf (some hop) a .aodv)) := by
  unfold routeUpdate
  rw [← Prod.mk.eta (p := routeLookup env a.address t)]
  cases hfound : (routeLookup env a.address t).2 with
  | some c => exact ⟨_, by simp [routeRenew_eq, hs c hfound], .inl rfl⟩
  | none =>
      have hself : seqGreater (routeNew conf (some hop) a .aodv).seq a.sequence = true := by
        simp [routeNew, seqGreater]
      exact ⟨_, by simp [routeInsert, hmem, routeRenew_eq, hself], .inr rfl⟩

def Writes (env : Env) (a : AodvAddress) (dest : U32) (t : RouteTable) : Prop :=
  a.address = dest ∧
    ∃ seq, ((routeLookup env dest t).2.map fun c => c.2.seq) = some seq ∧
      seqGreater seq a.sequence = false

variable (conf hop metric) in
theorem routeUpdate_of_writes (h : Writes env a dest t) :
    ∃ t' p r, routeUpdate conf env a (some hop) metric t = some (t', 0) ∧
      t'.find? (routeCompare dest) = some (p, routeAccept env a hop metric r) := by
  obtain ⟨rfl, s, hstored, hs⟩ := h
  obtain ⟨⟨p, r⟩, hfound, rfl⟩ := Option.map_eq_some_iff.mp hstored
  refine ⟨_, p, r, routeUpdate_written hfound hs, ?_⟩
  have hfind : (routeLookup env a.address t).1.find? (routeCompare a.address) = some (p, r) :=
    hfound
  rw [HeapList.find?_modify p (routeAccept env a hop metric) _ fun _ => rfl, hfind,
    Option.map_some, if_pos rfl]

variable (conf hop) in
theorem routeUpdate_of_not_writes (hmem : env.mem .route = true) (h : ¬Writes env a dest t)
    (hshows : ShowsUnfit dest seq metric t) :
    ∃ t', routeUpdate conf env a (some hop) metric t = some (t', 0) ∧
      ShowsUnfit dest seq metric t' := by
  have hlook := hshows.routeLookup env a.address
  by_cases hs : ∀ c, (routeLookup env a.address t).2 = some c →
      seqGreater c.2.seq a.sequence = true
  · obtain ⟨t', hupdate, rfl | rfl⟩ := routeUpdate_refused conf hop hmem hs
    · exact ⟨_, hupdate, hlook⟩
    · exact ⟨_, hupdate, hlook.push rfl⟩
  · push Not at hs
    obtain ⟨⟨p, r⟩, hfound, hs⟩ := hs
    have hs : seqGreater r.seq a.sequence = false := Bool.eq_false_iff.mpr hs
    refine ⟨_, routeUpdate_written hfound hs, hlook.modify (HeapList.mem_of_find? hfound) ?_ ?_⟩
    · intro haddr
      -- the entry found has the address that was looked up
      have hdest : a.address = dest := (address_of_find? hfound).symm.trans haddr
      exact h ⟨hdest, r.seq, by rw [← hdest, hfound, Option.map_some], hs⟩
    · exact fun _ => rfl

/-! ## The sender -/

variable (conf) in
/-- With memory, a handler holds a linked record of the sender; an unknown one gets a blank
entry at the head of the table. -/
theorem lastHop_spec (hmem : ∀ site, env.mem site = true) (task : PduTask) (node : RouteNode) :
    ∃ node' hop, lastHop conf env task node = (node', some hop) ∧
      node'.neighs.get? hop.1 = some hop.2 ∧
      hop.2.address.address = task.header.src.address ∧
      (neighLookup task node.neighs ≠ none ∧ node'.routes = node.routes ∨
        neighLookup task node.neighs = none ∧ ∃ blank, node'.routes = node.routes.push blank ∧
          blank.address = task.header.src ∧ blank.seq = task.header.src.sequence ∧
          blank.routeValid = false) := by
  obtain ⟨hop, heq, rfl, hold⟩ | ⟨⟨hnew, -⟩, heq⟩ := lastHop_cases conf env task node
  · cases hl : neighLookup task node.neighs with
    | none => exact absurd ⟨hl, hmem _, hmem _⟩ hold
    | some c =>
        have hsender := HeapList.of_find? hl
        simp only [Bool.and_eq_true, beq_iff_eq] at hsender
        refine ⟨node, c, by rw [heq, hl], ?_, hsender.1, .inl ⟨by simp, rfl⟩⟩
        exact HeapList.get?_eq_some.mpr (HeapList.mem_of_find? hl)
  · refine ⟨_, _, heq, ?_, rfl, .inr ⟨hnew, _, rfl, rfl, rfl, rfl⟩⟩
    rw [HeapList.get?_push, if_pos rfl]

theorem ageRoute_of_invalid {r : MeshRoute} (h : r.routeValid = false) : ageRoute env r = r := by
  simp [ageRoute, h]

theorem lookup_seq_lastHop (hmem : ∀ site, env.mem site = true) (task : PduTask)
    (node : RouteNode) (dest : U32) :
    ((routeLookup env dest (lastHop conf env task node).1.routes).2.map fun c => c.2.seq) =
      storedSeq env task dest node := by
  obtain ⟨node', hop, heq, -, -, ⟨hknown, hroutes⟩ | ⟨hnew, blank, hroutes, haddr, hseq, hinv⟩⟩ :=
    lastHop_spec conf hmem task node
  · rw [heq, hroutes, storedSeq, if_neg fun h => hknown h.1]
  · rw [heq, hroutes, storedSeq, routeLookup_snd, find?_push, haddr]
    by_cases hdest : task.header.src.address = dest
    · rw [if_pos hdest, if_pos ⟨hnew, hdest⟩, Option.map_some, Option.map_some,
        ageRoute_of_invalid hinv, hseq]
    · rw [if_neg hdest, if_neg fun h => hdest h.2, routeLookup_snd]

variable (conf) in
theorem writes_lastHop_iff (hmem : ∀ site, env.mem site = true) (task : PduTask)
    (node : RouteNode) (a : AodvAddress) (dest : U32) :
    Writes env a dest (lastHop conf env task node).1.routes ↔
      a.address = dest ∧ ∃ seq, storedSeq env task dest node = some seq ∧
        seqGreater seq a.sequence = false := by
  rw [Writes, lookup_seq_lastHop hmem]

theorem ShowsUnfit.lastHop (hmem : ∀ site, env.mem site = true) (task : PduTask)
    {node : RouteNode} (h : ShowsUnfit dest seq metric node.routes) :
    ShowsUnfit dest seq metric (lastHop conf env task node).1.routes := by
  obtain ⟨node', hop, heq, -, -, ⟨-, hroutes⟩ | ⟨-, blank, hroutes, -, -, hinv⟩⟩ :=
    lastHop_spec conf hmem task node
  · rw [heq, hroutes]
    exact h
  · rw [heq, hroutes]
    exact h.push hinv

/-! ## The handler -/

/-- The node after `_timer_delete`, as the handler goes on with it. -/
def afterTimer (node : RouteNode) : RouteNode :=
  { node with timers := timerDelete .resendRreq 0 node.timers }

variable {dev : RouteDev} {task : PduTask} {reply : AodvPduReply} {node node' : RouteNode}

theorem find?_of_written {t' : RouteTable} {p : ℕ} {r : MeshRoute}
    (hfind : t'.find? (routeCompare dest) = some (p, routeAccept env a hop metric r))
    (b : U32) : (routeLookup env b t').1.find? (routeCompare dest) =
      some (p, routeAccept env a hop metric r) := by
  rcases find?_routeLookup env b dest t' with ⟨hnone, -⟩ | ⟨p', r₁, r₂, h₁, h₂, rfl | rfl⟩
  · simp [hnone] at hfind
  · exact h₂.trans (h₁.symm.trans hfind)
  · obtain ⟨rfl, rfl⟩ := Prod.mk.inj (Option.some.inj (h₁.symm.trans hfind))
    rcases ageRoute_cases env (routeAccept env a hop metric r) with hsame | ⟨htime, -⟩
    · rw [h₂, hsame]
    · have hlives : timeBefore (env.now + activeRouteTimeout) env.now = false :=
        timeBefore_add env.now (by decide)
      simp [routeAccept, hlives] at htime

theorem leadsTo_routeAccept {neighs : NeighList} (hlinked : neighs.get? hop.1 = some hop.2)
    (r : MeshRoute) :
    LeadsTo neighs hop.2.address.address seq metric.toNat (routeAccept env a hop metric r) ↔
      a.sequence = seq := by
  constructor
  · exact fun h => h.seq
  · exact fun hseq => ⟨rfl, hseq, rfl, hop.1, hop.2, rfl, hlinked, rfl⟩

section NoHello

variable (hhello : ¬(reply.srcIp = reply.dstIp ∧ task.header.src.address = reply.srcIp))
include hhello

theorem rxReply_fault (hfault : env.memory reply.dstIp = none) :
    rxReply conf env dev task reply node = none := by
  unfold rxReply
  have htest : (reply.srcIp == reply.dstIp && task.header.src.address == reply.srcIp) = false := by
    simpa using hhello
  simp [htest, hfault]

variable (ha : env.memory reply.dstIp = some a)
include ha

theorem rxReply_update {t' : RouteTable} {ret : ℤ}
    (hsender : lastHop conf env task (afterTimer node) = (node', some hop))
    (hupdate : routeUpdate conf env a (some hop) (reply.metric + 1) node'.routes =
      some (t', ret)) :
    ∃ done, rxReply conf env dev task reply node = some done ∧
      done.node.routes = (routeLookup env reply.srcIp t').1 ∧
      done.node.neighs = node'.neighs := by
  unfold afterTimer at hsender
  have htest : (reply.srcIp == reply.dstIp && task.header.src.address == reply.srcIp) = false := by
    simpa using hhello
  simp only [rxReply, htest, Bool.false_eq_true, if_false, ha, hsender, hupdate,
    Option.bind_eq_bind, Option.bind_some]
  split
  · exact ⟨_, rfl, rfl, rfl⟩
  · split_ifs
    · exact ⟨_, rfl, rfl, rfl⟩
    · split
      · exact ⟨_, rfl, rfl, rfl⟩
      · exact ⟨_, rfl, rfl, rfl⟩

variable (hmem : ∀ site, env.mem site = true)
include hmem

theorem rxReply_of_writes
    (hwrites : Writes env a reply.dstIp (lastHop conf env task (afterTimer node)).1.routes) :
    ∃ done, rxReply conf env dev task reply node = some done ∧
      (Installed reply.dstIp task.header.src.address seq (reply.metric + 1).toNat done.node ↔
        a.sequence = seq) := by
  obtain ⟨node', hop, heq, hlinked, hsender, -⟩ := lastHop_spec conf hmem task (afterTimer node)
  rw [heq] at hwrites
  obtain ⟨t', p, r, hupdate, hfind⟩ := routeUpdate_of_writes conf (reply.metric + 1) hop hwrites
  obtain ⟨done, hrx, hroutes, hneighs⟩ := rxReply_update hhello ha heq hupdate
  refine ⟨done, hrx, ?_⟩
  have hshown := find?_of_written hfind reply.srcIp
  rw [← hroutes] at hshown
  rw [← hneighs] at hlinked
  rw [Installed, hshown, ← hsender]
  simp only [Option.some.injEq, exists_eq_left']
  exact leadsTo_routeAccept hlinked r

theorem rxReply_of_not_writes
    (hwrites : ¬Writes env a reply.dstIp (lastHop conf env task (afterTimer node)).1.routes)
    (hshows : ShowsUnfit reply.dstIp seq (reply.metric + 1) node.routes) (sender : U32) :
    ∃ done, rxReply conf env dev task reply node = some done ∧
      ¬Installed reply.dstIp sender seq (reply.metric + 1).toNat done.node := by
  have hafter : ShowsUnfit reply.dstIp seq (reply.metric + 1)
      (lastHop conf env task (afterTimer node)).1.routes :=
    ShowsUnfit.lastHop hmem task hshows
  obtain ⟨node', hop, heq, -⟩ := lastHop_spec conf hmem task (afterTimer node)
  rw [heq] at hwrites hafter
  obtain ⟨t', hupdate, hkept⟩ := routeUpdate_of_not_writes conf hop (hmem _) hwrites hafter
  obtain ⟨done, hrx, hroutes, -⟩ := rxReply_update hhello ha heq hupdate
  refine ⟨done, hrx, ShowsUnfit.not_installed ?_ sender⟩
  rw [hroutes]
  exact hkept.routeLookup env reply.srcIp

end NoHello

/-- A RREP that brings news, while memory lasts, installs its route exactly if what lies at
the address `dst_ip` happens to be that address and the number of the RREP, and the entry
that is found has an older number. A first route is never installed, and an equal number
neither mends nor shortens one. -/
theorem reply_installs_route_iff (conf : NodeConf) (env : Env) (dev : RouteDev) (task : PduTask)
    (reply : AodvPduReply) (node : RouteNode) (hmem : ∀ site, env.mem site = true)
    (hhello : ¬(reply.srcIp = reply.dstIp ∧ task.header.src.address = reply.srcIp))
    (hmetric : reply.metric.toNat < 255)
    (hnews : IsNews (conf.htonl reply.dstSeq) (reply.metric + 1)
      (routeLookup env reply.dstIp node.routes).2) :
    (∃ done, rxReply conf env dev task reply node = some done ∧
        Installed reply.dstIp task.header.src.address (conf.htonl reply.dstSeq)
          (reply.metric.toNat + 1) done.node) ↔
      env.memory reply.dstIp = some ⟨reply.dstIp, conf.htonl reply.dstSeq⟩ ∧
        ∃ seq, storedSeq env task reply.dstIp node = some seq ∧
          seqGreater seq (conf.htonl reply.dstSeq) = false := by
  have hnext : reply.metric.toNat + 1 = (reply.metric + 1).toNat := by
    rw [BitVec.toNat_add, Nat.mod_eq_of_lt]
    · rfl
    · change reply.metric.toNat + 1 < 256
      omega
  rw [hnext]
  cases ha : env.memory reply.dstIp with
  | none => simp [rxReply_fault hhello ha]
  | some a =>
      have hiff := writes_lastHop_iff conf hmem task (afterTimer node) a reply.dstIp
      constructor
      · rintro ⟨done, hrx, hinstalled⟩
        by_cases hwrites : Writes env a reply.dstIp
            (lastHop conf env task (afterTimer node)).1.routes
        · obtain ⟨done', hrx', hseq⟩ := rxReply_of_writes hhello ha hmem hwrites
          obtain rfl := Option.some.inj (hrx.symm.trans hrx')
          obtain ⟨haddr, hfresh⟩ := hiff.mp hwrites
          have hnumber := hseq.mp hinstalled
          refine ⟨?_, hnumber ▸ hfresh⟩
          rw [← hnumber, ← haddr]
        · obtain ⟨done', hrx', hnot⟩ := rxReply_of_not_writes hhello ha hmem hwrites
            (showsUnfit_of_isNews hnews) task.header.src.address
          obtain rfl := Option.some.inj (hrx.symm.trans hrx')
          exact absurd hinstalled hnot
      · rintro ⟨heq, hfresh⟩
        obtain rfl := Option.some.inj heq
        obtain ⟨done, hrx, hseq⟩ := rxReply_of_writes hhello ha hmem (hiff.mpr ⟨rfl, hfresh⟩)
        exact ⟨done, hrx, hseq.mpr rfl⟩

/-- A RREP with the number 5 for the node at `10.0.0.1`, as it lies in the memory of a
little-endian host. -/
def firstReply (dstIp : U32) : AodvPduReply :=
  { helloPdu .little dstIp 5 with srcIp := 0x0a000001 }

def replyTask (dstIp : U32) : PduTask :=
  ipTask (lanDev 0x0a000001) .rrep (lanDatagram 0x0a000002 (.reply (firstReply dstIp)))

def Env.holding (a : AodvAddress) : Env := { Env.plenty 0 with memory := fun _ => some a }

/-- The destination itself answers and is not known yet: its blank entry has the number 0. -/
theorem reply_installs_neighbour :
    ∃ done, rxReply (lanNode .little true).1 (.holding ⟨0x0a000002, 5⟩) (lanDev 0x0a000001)
        (replyTask 0x0a000002) (firstReply 0x0a000002) (lanNode .little true).2 = some done ∧
      Installed 0x0a000002 0x0a000002 5 1 done.node :=
  (reply_installs_route_iff (lanNode .little true).1 (.holding ⟨0x0a000002, 5⟩)
    (lanDev 0x0a000001) (replyTask 0x0a000002) (firstReply 0x0a000002) (lanNode .little true).2
    (fun _ => rfl) (by decide) (by decide) (by decide)).mpr
    ⟨by decide, 0, by decide, by decide⟩

/-- The node has no entry for `10.0.0.9` and hears of it from `10.0.0.2`. With nothing
readable at the address `10.0.0.9` the handler faults; with address and number there by
chance, it inserts an entry and leaves it invalid. -/
theorem first_reply_not_installed :
    (routeLookup (.plenty 0) 0x0a000009 (lanNode .little true).2.routes).2 = none ∧
      rxReply (lanNode .little true).1 (.plenty 0) (lanDev 0x0a000001) (replyTask 0x0a000009)
        (firstReply 0x0a000009) (lanNode .little true).2 = none ∧
      ∃ done, rxReply (lanNode .little true).1 (.holding ⟨0x0a000009, 5⟩) (lanDev 0x0a000001)
          (replyTask 0x0a000009) (firstReply 0x0a000009) (lanNode .little true).2 = some done ∧
        ¬Installed 0x0a000009 0x0a000002 5 1 done.node := by
  refine ⟨by decide, rfl, _, rfl, ?_⟩
  rintro ⟨c, hc, hroute⟩
  obtain rfl := Option.some.inj hc
  exact Bool.false_ne_true hroute.valid

end Haodv
end WirelessMesh
