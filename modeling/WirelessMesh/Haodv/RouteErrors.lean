import WirelessMesh.Haodv.NextHops
import WirelessMesh.Lib.Lists

/-!
# Received RERRs

A node that hears which destinations a neighbour no longer reaches expires its own routes to
them through that neighbour, and passes the news on. `_dev_rx_error` takes the routes that do
not go through the sender instead, follows next hops that may be null, and fills its own RERR
from the first slot of its notes only.
-/

namespace WirelessMesh
namespace Haodv

open Routes

variable {conf : NodeConf} {env : Env} {neighs : NeighList} {src : U32}

def listed (errpdu : AodvPduError) : List AodvDest := errpdu.dests.take errpdu.dstCount.toNat

def goesThrough (env : Env) (neighs : NeighList) (src : U32) (route : MeshRoute) : Bool :=
  route.nextHop.any fun hop => neighAddress env neighs hop == src

/-- A valid learned route through the sender to a destination that the RERR lists. -/
def Broken (env : Env) (neighs : NeighList) (src : U32) (dests : List AodvDest)
    (route : MeshRoute) : Prop :=
  route.routeValid = true ∧ route.selfRoute = false ∧ goesThrough env neighs src route = true ∧
    route.address.address ∈ dests.map AodvDest.ip

instance (env : Env) (neighs : NeighList) (src : U32) (dests : List AodvDest)
    (route : MeshRoute) : Decidable (Broken env neighs src dests route) :=
  inferInstanceAs (Decidable (_ ∧ _))

/-- `out` lists the addresses in `broken`, each once and with the number received for it. -/
structure Lists (dests : List AodvDest) (broken : U32 → Prop) (out : List AodvDest) : Prop where
  once : (out.map AodvDest.ip).Nodup
  exactly : ∀ address, address ∈ out.map AodvDest.ip ↔ broken address
  received : ∀ dest ∈ out, dest ∈ dests

/-- The broken routes are expired and passed on; the lookups may expire routes that are over. -/
structure ErrorRelayed (conf : NodeConf) (env : Env) (src : U32) (dests : List AodvDest)
    (node : RouteNode) (done : Done) : Prop where
  expired : ∀ p route, (p, route) ∈ node.routes.cells → Broken env node.neighs src dests route →
    ∃ route', (p, route') ∈ done.node.routes.cells ∧ route'.routeValid = false
  spared : ∀ p route, (p, route) ∈ node.routes.cells → ¬Broken env node.neighs src dests route →
    route.routeValid = true → timeBefore route.lifetime env.now = false →
      ∃ route', (p, route') ∈ done.node.routes.cells ∧ route'.routeValid = true
  relayed : conf.devs ≠ [] → (∃ c ∈ node.routes.cells, Broken env node.neighs src dests c.2) →
    ∃ out, done.sent = conf.broadcast netDiameter (.error out) ∧
      Lists dests (fun address => ∃ c ∈ node.routes.cells,
        Broken env node.neighs src dests c.2 ∧ c.2.address.address = address) (listed out)
  silent : (∀ c ∈ node.routes.cells, ¬Broken env node.neighs src dests c.2) → done.sent = []

/-! ## Entries that the handler meets -/

def Numbered (r r' : MeshRoute) : Prop := ∃ seq, r' = { r with seq := seq }

/-- What the handler does to an entry: at most a new number, or the loss of its next hop. -/
def Marked (r r' : MeshRoute) : Prop := ∃ seq, Spent { r with seq := seq } r'

theorem Numbered.refl (r : MeshRoute) : Numbered r r := ⟨r.seq, rfl⟩

theorem Numbered.trans {r r' r'' : MeshRoute} (h : Numbered r r') (h' : Numbered r' r'') :
    Numbered r r'' := by
  obtain ⟨seq, rfl⟩ := h
  obtain ⟨seq', rfl⟩ := h'
  exact ⟨seq', rfl⟩

theorem Numbered.marked {r r' : MeshRoute} (h : Numbered r r') : Marked r r' := by
  obtain ⟨seq, rfl⟩ := h
  exact ⟨seq, .refl _⟩

theorem Numbered.goesThrough_eq {r r' : MeshRoute} (h : Numbered r r') :
    goesThrough env neighs src r' = goesThrough env neighs src r := by
  obtain ⟨seq, rfl⟩ := h
  rfl

theorem marked_of_spent {r r' : MeshRoute} (h : Spent r r') : Marked r r' := ⟨r.seq, h⟩

theorem Marked.refl (r : MeshRoute) : Marked r r := marked_of_spent (.refl r)

theorem Marked.trans {r r' r'' : MeshRoute} (h : Marked r r') (h' : Marked r' r'') :
    Marked r r'' := by
  obtain ⟨seq, h⟩ := h
  obtain ⟨seq', h'⟩ := h'
  refine ⟨seq', Spent.trans ?_ h'⟩
  rcases h with rfl | h
  · exact .refl _
  · exact .inr ⟨h.address, h.netmask, h.selfRoute, h.nextHop, h.routeValid⟩

theorem Marked.selfRoute_eq {r r' : MeshRoute} (h : Marked r r') :
    r'.selfRoute = r.selfRoute := by
  obtain ⟨seq, h⟩ := h
  exact h.selfRoute_eq

theorem Marked.invalid {r r' : MeshRoute} (h : Marked r r') (hinvalid : r.routeValid = false) :
    r'.routeValid = false := by
  obtain ⟨seq, rfl | h⟩ := h
  · exact hinvalid
  · exact h.routeValid

theorem Marked.numbered {r r' : MeshRoute} (h : Marked r r') (hhop : r'.nextHop ≠ none) :
    Numbered r r' := by
  obtain ⟨seq, h⟩ := h
  exact ⟨seq, h.eq_of_nextHop hhop⟩

theorem routeReport_marked (env : Env) (seq : U32) (r : MeshRoute) :
    Marked r (routeReport env seq r) := by
  unfold routeReport
  dsimp only
  split_ifs
  · exact ⟨seq, routeExpire_spent env _⟩
  · exact ⟨seq, .refl _⟩

theorem ageRoute_eq_self {r : MeshRoute} (hhop : (ageRoute env r).nextHop ≠ none) :
    ageRoute env r = r :=
  (ageRoute_spent env r).eq_of_nextHop hhop

theorem Numbered.ageRoute (env : Env) {r r' : MeshRoute} (h : Numbered r r') :
    Numbered (ageRoute env r) (ageRoute env r') := by
  obtain ⟨seq, rfl⟩ := h
  unfold Haodv.ageRoute
  dsimp only
  split_ifs
  · cases hdev : r.dev with
    | none => exact ⟨seq, by simp [routeExpire, hdev]⟩
    | some d => exact ⟨seq + 1, by simp [routeExpire, hdev]⟩
  · exact ⟨seq, rfl⟩

theorem routeReport_numbered (seq : U32) {r : MeshRoute}
    (hdev : r.routeValid = true → r.dev = none) : Numbered r (routeReport env seq r) := by
  unfold routeReport
  dsimp only
  split_ifs with hvalid
  · exact ⟨seq, by simp [routeExpire, hdev hvalid]⟩
  · exact ⟨seq, rfl⟩

theorem routeReport_invalid (seq : U32) {r : MeshRoute} {d : RouteDev} (hdev : r.dev = some d) :
    (routeReport env seq r).routeValid = false := by
  unfold routeReport
  dsimp only
  split_ifs with hvalid
  · simp [routeExpire, hdev]
  · simpa using hvalid

/-! ## The loop -/

def firstEntry (routes : RouteTable) (dest : AodvDest) : Option (ℕ × MeshRoute) :=
  routes.find? (routeCompare dest.ip)

/-- The handler takes a learned entry that does not go through the sender. -/
def taken (env : Env) (neighs : NeighList) (src : U32) (routes : RouteTable) (dest : AodvDest) :
    Bool :=
  (firstEntry routes dest).any fun c => !c.2.selfRoute && !goesThrough env neighs src c.2

theorem routeCompare_marked {r r' : MeshRoute} (h : Marked r r') (address : U32) :
    routeCompare address r = routeCompare address r' := by
  obtain ⟨seq, h⟩ := h
  exact h.routeCompare_eq address

/-- What the loop does at one listed destination; `none` where it follows a null pointer. -/
def errorStep (conf : NodeConf) (env : Env) (neighs : NeighList) (src : U32) (destAdd : AodvDest)
    (i : ℕ) (scan : ErrorScan) : Option ErrorScan :=
  let routes := (routeLookup env destAdd.ip scan.routes).1
  match firstEntry scan.routes destAdd with
  | none => some { scan with routes := routes }
  | some (p, route) =>
      if route.selfRoute then some { scan with routes := routes }
      else if (ageRoute env route).nextHop = none then none
      else if goesThrough env neighs src route then some { scan with routes := routes }
      else if env.mem .errDest then
        some { routes := routes.modify p (routeReport env (conf.htonl destAdd.seq))
               errDestAdd := scan.errDestAdd.set i destAdd
               numOutgoingRoutes := scan.numOutgoingRoutes + 1 }
      else none

theorem rxErrorLoop_cons (conf : NodeConf) (env : Env) (neighs : NeighList) (src : U32)
    (dest : AodvDest) (dests : List AodvDest) (i : ℕ) (scan : ErrorScan) :
    rxErrorLoop conf env neighs src (dest :: dests) i scan =
      (errorStep conf env neighs src dest i scan).bind
        (rxErrorLoop conf env neighs src dests (i + 1)) := by
  have hfound := routeLookup_snd env dest.ip scan.routes
  rw [rxErrorLoop, errorStep, firstEntry]
  generalize routeLookup env dest.ip scan.routes = res at hfound
  obtain ⟨aged, found⟩ := res
  cases hentry : scan.routes.find? (routeCompare dest.ip) with
  | none =>
      rw [hentry] at hfound
      obtain rfl : found = none := hfound
      rfl
  | some c =>
      obtain ⟨p, route⟩ := c
      rw [hentry, Option.map_some] at hfound
      obtain rfl : found = some (p, ageRoute env route) := hfound
      have hself : (ageRoute env route).selfRoute = route.selfRoute :=
        (ageRoute_spent env route).selfRoute_eq
      dsimp only
      rw [hself]
      by_cases hlearned : route.selfRoute = true
      · rw [if_pos hlearned, if_pos hlearned, Option.bind_some]
      rw [if_neg hlearned, if_neg hlearned]
      cases hhop : (ageRoute env route).nextHop with
      | none => rfl
      | some hop =>
          have hsame : ageRoute env route = route := ageRoute_eq_self (by simp [hhop])
          rw [hsame] at hhop
          have hgoes : goesThrough env neighs src route = (neighAddress env neighs hop == src) := by
            rw [goesThrough, hhop, Option.any_some]
          rw [if_neg (Option.some_ne_none hop), hgoes]
          dsimp only [Option.bind_eq_bind, Option.bind_some]
          split_ifs <;> rfl

theorem errorStep_marked {dest : AodvDest} {i : ℕ} {scan scan' : ErrorScan}
    (h : errorStep conf env neighs src dest i scan = some scan') :
    HeapList.Pointwise Marked scan.routes scan'.routes := by
  have haged : HeapList.Pointwise Marked scan.routes (routeLookup env dest.ip scan.routes).1 :=
    HeapList.walk_pointwise Marked.refl (fun r => marked_of_spent (ageRoute_spent env r)) _ _
  unfold errorStep at h
  dsimp only at h
  cases hentry : firstEntry scan.routes dest with
  | none =>
      rw [hentry] at h
      obtain rfl := Option.some.inj h
      exact haged
  | some c =>
      rw [hentry] at h
      dsimp only at h
      split_ifs at h <;> obtain rfl := Option.some.inj h
      · exact haged
      · exact haged
      · exact haged.trans Marked.trans
          (HeapList.modify_pointwise Marked.refl (routeReport_marked env _) c.1 _)

theorem rxErrorLoop_marked {dests : List AodvDest} {i : ℕ} {scan scan' : ErrorScan}
    (h : rxErrorLoop conf env neighs src dests i scan = some scan') :
    HeapList.Pointwise Marked scan.routes scan'.routes := by
  induction dests generalizing i scan with
  | nil =>
      obtain rfl := Option.some.inj h
      exact .refl Marked.refl _
  | cons dest dests ih =>
      rw [rxErrorLoop_cons] at h
      obtain ⟨scan₁, hstep, h⟩ := Option.bind_eq_some_iff.mp h
      exact (errorStep_marked hstep).trans Marked.trans (ih h)

theorem errorStep_met {dest : AodvDest} {i : ℕ} {scan scan' : ErrorScan} {p : ℕ}
    {route : MeshRoute} (h : errorStep conf env neighs src dest i scan = some scan')
    (hentry : firstEntry scan.routes dest = some (p, route)) (hself : route.selfRoute = false) :
    (ageRoute env route).nextHop ≠ none ∧
      (goesThrough env neighs src route = false → env.mem .errDest = true ∧
        (route.dev ≠ none →
          ∃ route', (p, route') ∈ scan'.routes.cells ∧ route'.routeValid = false)) := by
  unfold errorStep at h
  rw [hentry] at h
  dsimp only at h
  rw [hself, if_neg Bool.false_ne_true] at h
  split_ifs at h with hhop hgoes hmem
  · exact ⟨hhop, fun hnot => absurd hgoes (by simp [hnot])⟩
  · obtain rfl := Option.some.inj h
    refine ⟨hhop, fun _ => ⟨hmem, fun hdev => ?_⟩⟩
    obtain ⟨d, hdev⟩ := Option.ne_none_iff_exists'.mp hdev
    have hfound := routeLookup_snd env dest.ip scan.routes
    rw [show scan.routes.find? _ = _ from hentry, Option.map_some, ageRoute_eq_self hhop] at hfound
    exact ⟨_, HeapList.mem_modify_self (HeapList.mem_of_find? hfound),
      routeReport_invalid _ hdev⟩

theorem rxErrorLoop_met {dests : List AodvDest} {i : ℕ} {routes : RouteTable}
    {scan scan' : ErrorScan} (hmarked : HeapList.Pointwise Marked routes scan.routes)
    (h : rxErrorLoop conf env neighs src dests i scan = some scan') {dest : AodvDest}
    (hdest : dest ∈ dests) {p : ℕ} {route : MeshRoute}
    (hentry : firstEntry routes dest = some (p, route)) (hself : route.selfRoute = false) :
    (ageRoute env route).nextHop ≠ none ∧
      (goesThrough env neighs src route = false → env.mem .errDest = true ∧
        (route.dev ≠ none →
          ∃ route', (p, route') ∈ scan'.routes.cells ∧ route'.routeValid = false)) := by
  induction dests generalizing i scan with
  | nil => cases hdest
  | cons d ds ih =>
      rw [rxErrorLoop_cons] at h
      obtain ⟨scan₁, hstep, hrest⟩ := Option.bind_eq_some_iff.mp h
      rcases List.mem_cons.mp hdest with rfl | hdest
      · rcases hmarked.find?_eq fun hm => routeCompare_marked hm dest.ip with
          ⟨hnone, -⟩ | ⟨q, r, now, hr, hnow, hm⟩
        · rw [firstEntry, hnone] at hentry
          cases hentry
        obtain ⟨rfl, rfl⟩ := Prod.mk.inj (Option.some.inj (hr.symm.trans hentry))
        obtain ⟨hhop, htaken⟩ := errorStep_met hstep hnow (hm.selfRoute_eq.trans hself)
        -- the entry has its next hop, so that no earlier destination has expired it
        have hnum := hm.numbered (ageRoute_eq_self hhop ▸ hhop)
        obtain ⟨seq', haged⟩ := hnum.ageRoute env
        obtain ⟨seq, rfl⟩ := hnum
        rw [haged] at hhop
        refine ⟨hhop, fun hgoes => ?_⟩
        obtain ⟨hmem, hexpired⟩ := htaken hgoes
        refine ⟨hmem, fun hdev => ?_⟩
        obtain ⟨r₁, hr₁, hinvalid⟩ := hexpired hdev
        obtain ⟨r₂, hr₂, hm₂⟩ := (rxErrorLoop_marked hrest).mem_right hr₁
        exact ⟨r₂, hr₂, hm₂.invalid hinvalid⟩
      · exact ih (hmarked.trans Marked.trans (errorStep_marked hstep)) hrest hdest

/-! ## Runs of the loop that expire nothing -/

/-- No listed entry stops the loop or is expired by it. -/
def Quiet (env : Env) (neighs : NeighList) (src : U32) (dests : List AodvDest)
    (routes : RouteTable) : Prop :=
  ∀ dest ∈ dests, ∀ p route, firstEntry routes dest = some (p, route) →
    route.selfRoute = false → (ageRoute env route).nextHop ≠ none ∧
      (goesThrough env neighs src route = false → env.mem .errDest = true ∧
        (route.routeValid = true → route.dev = none))

def lookups (env : Env) (dests : List AodvDest) (routes : RouteTable) : RouteTable :=
  routes.walks (ageRoute env) (dests.map fun dest => routeCompare dest.ip)

def slot (env : Env) (neighs : NeighList) (src : U32) (routes : RouteTable) (dest : AodvDest) :
    AodvDest :=
  if taken env neighs src routes dest then dest else ⟨0, 0⟩

theorem ageRoute_self {route : MeshRoute} (hself : route.selfRoute = true) :
    ageRoute env route = route := by
  simp [ageRoute, hself]

theorem Quiet.firstEntry_lookup {dests : List AodvDest} {routes : RouteTable}
    (h : Quiet env neighs src dests routes) (address : U32) {dest : AodvDest}
    (hdest : dest ∈ dests) :
    firstEntry (routeLookup env address routes).1 dest = firstEntry routes dest := by
  have haged : HeapList.Pointwise (fun r r' => r' = r ∨ r' = ageRoute env r) routes
      (routeLookup env address routes).1 :=
    HeapList.walk_pointwise (fun _ => .inl rfl) (fun _ => .inr rfl) _ routes
  have hkey : ∀ {r r' : MeshRoute}, r' = r ∨ r' = ageRoute env r →
      routeCompare dest.ip r = routeCompare dest.ip r' := by
    rintro r r' (rfl | rfl)
    · rfl
    · exact (ageRoute_spent env r).routeCompare_eq dest.ip
  unfold firstEntry
  rcases haged.find?_eq hkey with ⟨hnone, hnone'⟩ | ⟨p, r, r', hr, hr', hsame⟩
  · rw [hnone, hnone']
  · have hage : ageRoute env r = r := by
      cases hself : r.selfRoute with
      | true => exact ageRoute_self hself
      | false => exact ageRoute_eq_self (h dest hdest p r hr hself).1
    rw [hage, or_self] at hsame
    rw [hr, hr', hsame]

theorem errorStep_quiet (conf : NodeConf) (i : ℕ) {dest : AodvDest} {dests : List AodvDest}
    {routes : RouteTable} {scan : ErrorScan} (hquiet : Quiet env neighs src (dest :: dests) routes)
    (hnum : HeapList.Pointwise Numbered routes scan.routes) :
    ∃ scan', errorStep conf env neighs src dest i scan = some scan' ∧
      HeapList.Pointwise Numbered (routeLookup env dest.ip routes).1 scan'.routes ∧
      scan'.errDestAdd = (if taken env neighs src routes dest then scan.errDestAdd.set i dest
        else scan.errDestAdd) ∧
      scan'.numOutgoingRoutes = scan.numOutgoingRoutes +
        if taken env neighs src routes dest then 1 else 0 := by
  have hkey : ∀ {r r' : MeshRoute}, Numbered r r' →
      routeCompare dest.ip r = routeCompare dest.ip r' :=
    fun h => routeCompare_marked h.marked dest.ip
  have haged : HeapList.Pointwise Numbered (routeLookup env dest.ip routes).1
      (routeLookup env dest.ip scan.routes).1 :=
    hnum.walk (fun h => h.ageRoute env) hkey
  unfold errorStep taken
  rcases hnum.find?_eq hkey with ⟨hnone, hnone'⟩ | ⟨p, r, r', hr, hr', hsame⟩
  · rw [firstEntry, firstEntry, hnone, hnone']
    exact ⟨_, rfl, haged, rfl, rfl⟩
  have hmet := hquiet dest List.mem_cons_self p r hr
  rw [firstEntry, firstEntry, hr, hr', Option.any_some]
  dsimp only
  rw [hsame.marked.selfRoute_eq, hsame.goesThrough_eq]
  cases hself : r.selfRoute with
  | true => exact ⟨_, rfl, haged, rfl, rfl⟩
  | false =>
      obtain ⟨hhop, htaken⟩ := hmet hself
      have hhop' : (ageRoute env r').nextHop ≠ none := by
        obtain ⟨seq, haged⟩ := hsame.ageRoute env
        rwa [haged]
      rw [if_neg Bool.false_ne_true, if_neg hhop']
      cases hgoes : goesThrough env neighs src r with
      | true => exact ⟨_, rfl, haged, rfl, rfl⟩
      | false =>
          obtain ⟨hmem, hdev⟩ := htaken hgoes
          have hfound := routeLookup_snd env dest.ip scan.routes
          rw [hr', Option.map_some, ageRoute_eq_self hhop'] at hfound
          rw [if_neg Bool.false_ne_true, if_pos hmem]
          refine ⟨_, rfl, haged.trans Numbered.trans ?_, rfl, rfl⟩
          refine HeapList.map_pointwise fun q a ha => ?_
          split_ifs with hq
          · subst hq
            rw [HeapList.eq_of_mem ha (HeapList.mem_of_find? hfound)]
            obtain ⟨seq, rfl⟩ := hsame
            exact routeReport_numbered _ hdev
          · exact .refl a

theorem Quiet.lookup {dest : AodvDest} {dests : List AodvDest} {routes : RouteTable}
    (h : Quiet env neighs src (dest :: dests) routes) :
    Quiet env neighs src dests (routeLookup env dest.ip routes).1 := by
  intro d hd p route hentry
  rw [h.firstEntry_lookup dest.ip (List.mem_cons_of_mem dest hd)] at hentry
  exact h d (List.mem_cons_of_mem dest hd) p route hentry

theorem Quiet.taken_lookup {dest : AodvDest} {dests : List AodvDest} {routes : RouteTable}
    (h : Quiet env neighs src (dest :: dests) routes) {d : AodvDest} (hd : d ∈ dests) :
    taken env neighs src (routeLookup env dest.ip routes).1 d = taken env neighs src routes d := by
  rw [taken, taken, h.firstEntry_lookup dest.ip (List.mem_cons_of_mem dest hd)]

/-- The table after the loop but for the sequence numbers, its notes and their count. -/
theorem rxErrorLoop_quiet (conf : NodeConf) (scan : ErrorScan) (sofar : List AodvDest) {k : ℕ}
    {dests : List AodvDest} {routes : RouteTable} (hquiet : Quiet env neighs src dests routes)
    (hnum : HeapList.Pointwise Numbered routes scan.routes)
    (hslots : scan.errDestAdd = sofar ++ List.replicate (dests.length + k) ⟨0, 0⟩) :
    ∃ scan', rxErrorLoop conf env neighs src dests sofar.length scan = some scan' ∧
      HeapList.Pointwise Numbered (lookups env dests routes) scan'.routes ∧
      scan'.errDestAdd =
        sofar ++ (dests.map (slot env neighs src routes) ++ List.replicate k ⟨0, 0⟩) ∧
      scan'.numOutgoingRoutes =
        scan.numOutgoingRoutes + dests.countP (taken env neighs src routes) := by
  induction dests generalizing sofar routes scan with
  | nil =>
      rw [List.length_nil, Nat.zero_add] at hslots
      exact ⟨scan, rfl, hnum, hslots, rfl⟩
  | cons dest dests ih =>
      obtain ⟨scan₁, hstep, hnum₁, hslots₁, hcount₁⟩ :=
        errorStep_quiet conf sofar.length hquiet hnum
      have hnext : scan₁.errDestAdd = (sofar ++ [slot env neighs src routes dest]) ++
          List.replicate (dests.length + k) ⟨0, 0⟩ := by
        rw [hslots₁, hslots, slot, List.length_cons, Nat.add_right_comm, List.replicate_succ]
        split_ifs <;> simp
      obtain ⟨scan', hloop, hnum', hslots', hcount'⟩ := ih scan₁ _ hquiet.lookup hnum₁ hnext
      have hmap : dests.map (slot env neighs src (routeLookup env dest.ip routes).1) =
          dests.map (slot env neighs src routes) := by
        refine List.map_congr_left fun d hd => ?_
        rw [slot, slot, hquiet.taken_lookup hd]
      have hcountP : dests.countP (taken env neighs src (routeLookup env dest.ip routes).1) =
          dests.countP (taken env neighs src routes) := by
        refine List.countP_congr fun d hd => ?_
        rw [hquiet.taken_lookup hd]
      refine ⟨scan', ?_, hnum', ?_, ?_⟩
      · rw [rxErrorLoop_cons, hstep, Option.bind_some]
        simpa using hloop
      · rw [hslots', hmap]
        simp
      · rw [hcount', hcountP, hcount₁, List.countP_cons]
        omega

def firstSlot (env : Env) (neighs : NeighList) (src : U32) (dests : List AodvDest)
    (routes : RouteTable) : AodvDest :=
  (dests.map (slot env neighs src routes)).headD ⟨0, 0⟩

/-- The RERR that lists `dest` as often as destinations were taken. -/
def relayPdu (count : ℕ) (dest : AodvDest) : AodvPduError :=
  { type := rerrMessage, n := false, reserved := 0, dstCount := BitVec.ofNat 8 count,
    dests := List.replicate count dest }

def relayed (conf : NodeConf) (env : Env) (neighs : NeighList) (src : U32)
    (dests : List AodvDest) (routes : RouteTable) : List Frame :=
  let count := dests.countP (taken env neighs src routes)
  if count = 0 then []
  else if !env.mem .pdu then []
  else conf.broadcast netDiameter
    (.error (relayPdu count (firstSlot env neighs src dests routes)))

theorem rxError_quiet (conf : NodeConf) {task : PduTask} {errpdu : AodvPduError}
    {node : RouteNode}
    (hquiet : Quiet env node.neighs task.header.src.address (listed errpdu) node.routes) :
    ∃ done, rxError conf env task errpdu node = some done ∧
      HeapList.Pointwise Numbered (lookups env (listed errpdu) node.routes) done.node.routes ∧
      done.sent = relayed conf env node.neighs task.header.src.address (listed errpdu)
        node.routes := by
  unfold rxError
  dsimp only
  by_cases hcount : errpdu.dstCount.toNat = 0
  · have hnil : listed errpdu = [] := by simp [listed, hcount]
    rw [if_pos hcount, hnil]
    exact ⟨_, rfl, .refl Numbered.refl _, rfl⟩
  · obtain ⟨k, hk⟩ : ∃ k, errpdu.dstCount.toNat = (listed errpdu).length + k :=
      Nat.exists_eq_add_of_le (List.length_take_le _ _)
    obtain ⟨scan, hloop, hnum, hslots, htaken⟩ := rxErrorLoop_quiet conf
      ⟨node.routes, List.replicate errpdu.dstCount.toNat ⟨0, 0⟩, 0⟩ [] hquiet
      (.refl Numbered.refl _) (congrArg (List.replicate · _) hk)
    rw [Nat.zero_add] at htaken
    have hhead : scan.errDestAdd.headD ⟨0, 0⟩ =
        firstSlot env node.neighs task.header.src.address (listed errpdu) node.routes := by
      rw [hslots, List.nil_append, Lists.headD_append_replicate, firstSlot]
    have hlisted : errpdu.dests.take errpdu.dstCount.toNat = listed errpdu := rfl
    rw [List.length_nil] at hloop
    rw [if_neg hcount, hlisted, hloop, Option.bind_eq_bind, Option.bind_some, htaken, hhead]
    unfold relayed
    dsimp only
    split_ifs <;> exact ⟨_, rfl, hnum, rfl⟩

/-! ## When the RERR is passed on -/

def lookedAt (env : Env) (dests : List AodvDest) (pre : List (ℕ × MeshRoute))
    (route : MeshRoute) : MeshRoute :=
  if dests.any fun dest => HeapList.passes (routeCompare dest.ip) pre then ageRoute env route
  else route

/-- The loop expires nothing itself, and the lookups and the first slot have done its work. -/
structure RelayCovered (conf : NodeConf) (env : Env) (src : U32) (dests : List AodvDest)
    (node : RouteNode) : Prop where
  quiet : Quiet env node.neighs src dests node.routes
  /-- A broken route is over and stands behind another entry for its address. -/
  overdue : ∀ pre p route post, node.routes.cells = pre ++ (p, route) :: post →
    Broken env node.neighs src dests route →
      timeBefore route.lifetime env.now = true ∧ route.dev ≠ none ∧
        ∃ dest ∈ dests, HeapList.passes (routeCompare dest.ip) pre = true
  relayed : conf.devs ≠ [] → (∃ c ∈ node.routes.cells, Broken env node.neighs src dests c.2) →
    env.mem .pdu = true ∧ dests.countP (taken env node.neighs src node.routes) = 1 ∧
      firstSlot env node.neighs src dests node.routes ∈ dests ∧
      ∀ c ∈ node.routes.cells, Broken env node.neighs src dests c.2 →
        c.2.address.address = (firstSlot env node.neighs src dests node.routes).ip
  silent : (∀ c ∈ node.routes.cells, ¬Broken env node.neighs src dests c.2) →
    conf.devs = [] ∨ env.mem .pdu = false ∨
      ∀ dest ∈ dests, taken env node.neighs src node.routes dest = false

theorem ageRoute_idem (route : MeshRoute) :
    ageRoute env (ageRoute env route) = ageRoute env route := by
  by_cases hover :
      (timeBefore route.lifetime env.now && !route.selfRoute && route.routeValid) = true
  · cases hdev : route.dev with
    | none => simp [ageRoute, routeExpire, hdev]
    | some d => simp [ageRoute, routeExpire, hdev, hover]
  · simp [ageRoute, hover]

section Entry

variable {dests : List AodvDest} {routes : RouteTable} {pre post : List (ℕ × MeshRoute)} {p : ℕ}
  {route : MeshRoute}

theorem get?_lookups (env : Env) (dests : List AodvDest)
    (hcells : routes.cells = pre ++ (p, route) :: post) :
    (lookups env dests routes).get? p = some (lookedAt env dests pre route) := by
  have hstops : ∀ stop ∈ dests.map fun dest => routeCompare dest.ip,
      ∀ route, stop (ageRoute env route) = stop route := by
    intro stop hstop route
    obtain ⟨dest, -, rfl⟩ := List.mem_map.mp hstop
    exact ((ageRoute_spent env route).routeCompare_eq dest.ip).symm
  rw [lookups, HeapList.get?_walks ageRoute_idem hstops hcells, List.any_map]
  rfl

theorem lookedAt_invalid_iff (hself : route.selfRoute = false) (hvalid : route.routeValid = true) :
    (lookedAt env dests pre route).routeValid = false ↔
      timeBefore route.lifetime env.now = true ∧ route.dev ≠ none ∧
        ∃ dest ∈ dests, HeapList.passes (routeCompare dest.ip) pre = true := by
  have hdev : (routeExpire env route).routeValid = false ↔ route.dev ≠ none := by
    cases hdev : route.dev <;> simp [routeExpire, hdev, hvalid]
  have hage : ageRoute env route =
      if timeBefore route.lifetime env.now then routeExpire env route else route := by
    simp [ageRoute, hself, hvalid]
  unfold lookedAt
  rw [hage]
  split_ifs with hpassed htime
  · simpa [hdev, htime] using fun _ => hpassed
  · simp [hvalid, htime]
  · simpa [hvalid] using fun _ _ => hpassed

theorem lookedAt_of_fresh (hfresh : timeBefore route.lifetime env.now = false) :
    lookedAt env dests pre route = route := by
  simp [lookedAt, ageRoute, hfresh]

end Entry

/-- A RERR that repeats one destination is right if it lists it once and it is the only one. -/
theorem lists_replicate_iff {dests : List AodvDest} {broken : U32 → Prop}
    (hbroken : ∃ address, broken address) (count : ℕ) (dest : AodvDest) :
    Lists dests broken (List.replicate count dest) ↔
      count = 1 ∧ dest ∈ dests ∧ ∀ address, broken address → address = dest.ip := by
  obtain ⟨address, haddress⟩ := hbroken
  constructor
  · intro h
    have hmem := (h.exactly address).mpr haddress
    rw [List.map_replicate, List.mem_replicate] at hmem
    have honce := h.once
    rw [List.map_replicate, List.nodup_replicate] at honce
    have hone : count = 1 := by omega
    refine ⟨hone, h.received dest (by simp [hone]), fun a ha => ?_⟩
    have hmem' := (h.exactly a).mpr ha
    rw [List.map_replicate, List.mem_replicate] at hmem'
    exact hmem'.2
  · rintro ⟨rfl, hdest, honly⟩
    constructor
    · simp
    · intro a
      rw [List.replicate_one, List.map_singleton, List.mem_singleton]
      constructor
      · rintro rfl
        rwa [← honly address haddress]
      · exact honly a
    · intro d hd
      rw [List.replicate_one, List.mem_singleton] at hd
      rwa [hd]

theorem listed_relayPdu {count : ℕ} (hcount : count < 256) (dest : AodvDest) :
    listed (relayPdu count dest) = List.replicate count dest := by
  have hmod : (BitVec.ofNat 8 count).toNat = count := by simpa using hcount
  rw [listed, relayPdu, hmod]
  exact List.take_of_length_le (by simp)

theorem broadcast_ne_nil (hdevs : conf.devs ≠ []) (pdu : Pdu) :
    conf.broadcast netDiameter pdu ≠ [] := by
  obtain ⟨dev, devs, hcons⟩ := List.exists_cons_of_ne_nil hdevs
  rw [NodeConf.broadcast, hcons]
  simp [NodeConf.devBroadcast, netDiameter]

theorem broadcast_inj (hdevs : conf.devs ≠ []) {pdu pdu' : Pdu}
    (h : conf.broadcast netDiameter pdu = conf.broadcast netDiameter pdu') : pdu = pdu' := by
  obtain ⟨dev, devs, hcons⟩ := List.exists_cons_of_ne_nil hdevs
  rw [NodeConf.broadcast, NodeConf.broadcast, hcons] at h
  simp [NodeConf.devBroadcast, netDiameter] at h
  exact h.1

theorem relayed_lists_iff {dests : List AodvDest} {routes : RouteTable} {broken : U32 → Prop}
    (hdevs : conf.devs ≠ []) (hlength : dests.length < 256)
    (hbroken : ∃ address, broken address) :
    (∃ out, relayed conf env neighs src dests routes = conf.broadcast netDiameter (.error out) ∧
        Lists dests broken (listed out)) ↔
      env.mem .pdu = true ∧ dests.countP (taken env neighs src routes) = 1 ∧
        firstSlot env neighs src dests routes ∈ dests ∧
        ∀ address, broken address → address = (firstSlot env neighs src dests routes).ip := by
  have hcount : dests.countP (taken env neighs src routes) < 256 :=
    List.countP_le_length.trans_lt hlength
  rw [← lists_replicate_iff hbroken, ← listed_relayPdu hcount]
  unfold relayed
  dsimp only
  constructor
  · rintro ⟨out, hout, hlists⟩
    split_ifs at hout with hnone hmem
    · exact absurd hout.symm (broadcast_ne_nil hdevs _)
    · exact absurd hout.symm (broadcast_ne_nil hdevs _)
    · cases broadcast_inj hdevs hout
      exact ⟨by simpa using hmem, hlists⟩
  · rintro ⟨hmem, hlists⟩
    have hsome : dests.countP (taken env neighs src routes) ≠ 0 := by
      intro hnone
      obtain ⟨address, haddress⟩ := hbroken
      have hlisted := (hlists.exactly address).mpr haddress
      rw [listed_relayPdu hcount, hnone] at hlisted
      cases hlisted
    rw [if_neg hsome, if_neg (by simp [hmem])]
    exact ⟨_, rfl, hlists⟩

theorem relayed_eq_nil_iff {dests : List AodvDest} {routes : RouteTable} :
    relayed conf env neighs src dests routes = [] ↔
      conf.devs = [] ∨ env.mem .pdu = false ∨
        ∀ dest ∈ dests, taken env neighs src routes dest = false := by
  have hnone : dests.countP (taken env neighs src routes) = 0 ↔
      ∀ dest ∈ dests, taken env neighs src routes dest = false := by
    simp [List.countP_eq_zero]
  rw [← hnone]
  unfold relayed
  dsimp only
  by_cases hcount : dests.countP (taken env neighs src routes) = 0
  · simp [hcount]
  by_cases hmem : env.mem .pdu = false
  · simp [hmem]
  by_cases hdevs : conf.devs = []
  · simp [hdevs, NodeConf.broadcast]
  · rw [if_neg hcount, if_neg (by simpa using hmem)]
    simp [hcount, hmem, hdevs, broadcast_ne_nil hdevs]

theorem rxError_met {task : PduTask} {errpdu : AodvPduError} {node : RouteNode} {done : Done}
    (h : rxError conf env task errpdu node = some done) {dest : AodvDest}
    (hdest : dest ∈ listed errpdu) {p : ℕ} {route : MeshRoute}
    (hentry : firstEntry node.routes dest = some (p, route)) (hself : route.selfRoute = false) :
    (ageRoute env route).nextHop ≠ none ∧
      (goesThrough env node.neighs task.header.src.address route = false →
        env.mem .errDest = true ∧ (route.dev ≠ none →
          ∃ route', (p, route') ∈ done.node.routes.cells ∧ route'.routeValid = false)) := by
  have hcount : errpdu.dstCount.toNat ≠ 0 := by
    intro hzero
    rw [listed, hzero] at hdest
    cases hdest
  unfold rxError at h
  dsimp only at h
  rw [if_neg hcount] at h
  obtain ⟨scan, hloop, h⟩ := Option.bind_eq_some_iff.mp h
  have hroutes : done.node.routes = scan.routes := by
    split_ifs at h <;> obtain rfl := Option.some.inj h <;> rfl
  rw [hroutes]
  exact rxErrorLoop_met (.refl Marked.refl node.routes) hloop hdest hentry hself

theorem ErrorRelayed.quiet {task : PduTask} {errpdu : AodvPduError} {node : RouteNode}
    {done : Done} (hdone : rxError conf env task errpdu node = some done)
    (h : ErrorRelayed conf env task.header.src.address (listed errpdu) node done) :
    Quiet env node.neighs task.header.src.address (listed errpdu) node.routes := by
  intro dest hdest p route hentry hself
  obtain ⟨hhop, htaken⟩ := rxError_met hdone hdest hentry hself
  refine ⟨hhop, fun hgoes => ?_⟩
  obtain ⟨hmem, hexpired⟩ := htaken hgoes
  refine ⟨hmem, fun hvalid => ?_⟩
  by_contra hdev
  obtain ⟨route', hroute', hinvalid⟩ := hexpired hdev
  have hfresh : timeBefore route.lifetime env.now = false := by
    by_contra hover
    rw [Bool.not_eq_false] at hover
    obtain ⟨d, hdev⟩ := Option.ne_none_iff_exists'.mp hdev
    simp [ageRoute, routeExpire, hself, hvalid, hdev, hover] at hhop
  have hother : ¬Broken env node.neighs task.header.src.address (listed errpdu) route := by
    rintro ⟨-, -, hthrough, -⟩
    rw [hgoes] at hthrough
    cases hthrough
  obtain ⟨kept, hkept, hstill⟩ :=
    h.spared p route (HeapList.mem_of_find? hentry) hother hvalid hfresh
  rw [HeapList.eq_of_mem hkept hroute', hinvalid] at hstill
  cases hstill

theorem mem_after_lookups {dests : List AodvDest} {routes after : RouteTable}
    {pre post : List (ℕ × MeshRoute)} {p : ℕ} {route : MeshRoute}
    (hnum : HeapList.Pointwise Numbered (lookups env dests routes) after)
    (hcells : routes.cells = pre ++ (p, route) :: post) :
    ∃ route', (p, route') ∈ after.cells ∧
      route'.routeValid = (lookedAt env dests pre route).routeValid := by
  have hlooked := HeapList.get?_eq_some.mp (get?_lookups env dests hcells)
  obtain ⟨route', hroute', seq, rfl⟩ := hnum.mem_right hlooked
  exact ⟨_, hroute', rfl⟩

/-- A RERR is handled and passed on exactly when the loop has nothing to do. -/
theorem error_relayed_iff (conf : NodeConf) (env : Env) (task : PduTask) (errpdu : AodvPduError)
    (node : RouteNode) :
    (∃ done, rxError conf env task errpdu node = some done ∧
      ErrorRelayed conf env task.header.src.address (listed errpdu) node done) ↔
      RelayCovered conf env task.header.src.address (listed errpdu) node := by
  have hlength : (listed errpdu).length < 256 :=
    (List.length_take_le _ _).trans_lt errpdu.dstCount.isLt
  constructor
  · rintro ⟨done, hdone, h⟩
    have hquiet := h.quiet hdone
    obtain ⟨done', hdone', hnum, hsent⟩ := rxError_quiet conf hquiet
    obtain rfl := Option.some.inj (hdone.symm.trans hdone')
    refine ⟨hquiet, ?_, ?_, ?_⟩
    · intro pre p route post hcells hbroken
      obtain ⟨route', hroute', hinvalid⟩ := h.expired p route (by simp [hcells]) hbroken
      obtain ⟨after, hafter, hvalid⟩ := mem_after_lookups hnum hcells
      rw [HeapList.eq_of_mem hafter hroute', hinvalid] at hvalid
      exact (lookedAt_invalid_iff hbroken.2.1 hbroken.1).mp hvalid.symm
    · rintro hdevs ⟨c, hc, hbroken⟩
      have hout := h.relayed hdevs ⟨c, hc, hbroken⟩
      rw [hsent, relayed_lists_iff hdevs hlength ⟨_, c, hc, hbroken, rfl⟩] at hout
      obtain ⟨hmem, hone, hslot, honly⟩ := hout
      exact ⟨hmem, hone, hslot, fun d hd hdbroken => honly _ ⟨d, hd, hdbroken, rfl⟩⟩
    · intro hnone
      rw [← relayed_eq_nil_iff, ← hsent]
      exact h.silent hnone
  · intro h
    obtain ⟨done, hdone, hnum, hsent⟩ := rxError_quiet conf h.quiet
    refine ⟨done, hdone, ?_, ?_, ?_, ?_⟩
    · intro p route hmem hbroken
      obtain ⟨pre, post, hcells⟩ := List.append_of_mem hmem
      obtain ⟨after, hafter, hvalid⟩ := mem_after_lookups hnum hcells
      refine ⟨after, hafter, hvalid.trans ?_⟩
      rw [lookedAt_invalid_iff hbroken.2.1 hbroken.1]
      exact h.overdue pre p route post hcells hbroken
    · intro p route hmem _ hvalid hfresh
      obtain ⟨pre, post, hcells⟩ := List.append_of_mem hmem
      obtain ⟨after, hafter, hsame⟩ := mem_after_lookups hnum hcells
      refine ⟨after, hafter, hsame.trans ?_⟩
      rw [lookedAt_of_fresh hfresh, hvalid]
    · rintro hdevs ⟨c, hc, hbroken⟩
      obtain ⟨hmem, hone, hslot, honly⟩ := h.relayed hdevs ⟨c, hc, hbroken⟩
      rw [hsent, relayed_lists_iff hdevs hlength ⟨_, c, hc, hbroken, rfl⟩]
      refine ⟨hmem, hone, hslot, ?_⟩
      rintro address ⟨d, hd, hdbroken, rfl⟩
      exact honly d hd hdbroken
    · intro hnone
      rw [hsent, relayed_eq_nil_iff]
      exact h.silent hnone

def twoNeighbours : List (Env × NodeEvent) :=
  heard 1000 0x0a000002 (.reply (helloPdu .little 0x0a000002 1)) ++
    heard 1100 0x0a000003 (.reply (helloPdu .little 0x0a000003 1))

/-- The RERR in which `10.0.0.3` says that it reaches neither itself nor `10.0.0.2`. -/
def bothLost : AodvPduError :=
  { type := rerrMessage, n := false, reserved := 0, dstCount := 2,
    dests := [⟨0x0a000003, ByteOrder.hton32 .little 7⟩, ⟨0x0a000002, ByteOrder.hton32 .little 5⟩] }

def bothLostTask : PduTask :=
  ipTask (lanDev 0x0a000001) .rerr (lanDatagram 0x0a000003 (.error bothLost))

/-- The route to `10.0.0.3` goes through the sender and stays valid. -/
theorem error_not_relayed : ∃ t,
    Machine.Visits (step (lanNode .little true).1) (lanNode .little true).2 twoNeighbours t ∧
    ∃ done, rxError (lanNode .little true).1 (.plenty 1200) bothLostTask bothLost t = some done ∧
      ¬ErrorRelayed (lanNode .little true).1 (.plenty 1200) 0x0a000003 (listed bothLost) t
        done := by
  have hrun : (Machine.finish (step (lanNode .little true).1) twoNeighbours
      (lanNode .little true).2).any (fun t => decide (∃ c ∈ t.routes.cells,
        Broken (.plenty 1200) t.neighs 0x0a000003 (listed bothLost) c.2 ∧
        (rxError (lanNode .little true).1 (.plenty 1200) bothLostTask bothLost t).any (fun done =>
          (done.node.routes.get? c.1).any fun route => route.routeValid) = true)) = true := by
    decide +kernel
  obtain ⟨t, hvisits, c, hc, hbroken, hvalid⟩ := Machine.exists_visits hrun
  obtain ⟨done, hdone, hvalid⟩ := (Option.any_eq_true _ _).mp hvalid
  obtain ⟨route, hroute, hvalid⟩ := (Option.any_eq_true _ _).mp hvalid
  refine ⟨t, hvisits, done, hdone, fun h => ?_⟩
  obtain ⟨route', hroute', hinvalid⟩ := h.expired c.1 c.2 hc hbroken
  rw [HeapList.eq_of_mem hroute' (HeapList.get?_eq_some.mp hroute), hvalid] at hinvalid
  cases hinvalid

end Haodv
end WirelessMesh
