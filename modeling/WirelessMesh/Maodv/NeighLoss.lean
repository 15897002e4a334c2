import WirelessMesh.Maodv.HandlerCases

/-!
# The loss of a neighbour

A node that loses a neighbour tells the others which destinations it can no longer reach, and
expires the routes through it. The work is done by three passes over the table: the lookup of
the neighbour's own route, the walk that makes up the RERR, and the tail of
`_engine_neigh_delete`, which expires or deletes that route.
-/

namespace WirelessMesh
namespace Maodv

open Routes

variable {conf : EngineConf} {env : Env} {ip : U32}

def through (ip : U32) (route : MeshRoute) : Bool := route.nextHop == ip && !route.selfRoute

/-- The lost neighbour's valid routes are expired, once, and the others are left alone. -/
structure LossHandled (ip : U32) (before after : RouteTable) : Prop where
  expired : ∀ p route, (p, route) ∈ before.cells → through ip route = true →
    route.routeValid = true → ∃ route', (p, route') ∈ after.cells ∧
      route'.routeValid = false ∧ route'.seq = route.seq + 1
  invalid : ∀ p route, (p, route) ∈ after.cells → through ip route = true →
    route.routeValid = false
  kept : ∀ p route, (p, route) ∈ before.cells → route.nextHop ≠ ip → (p, route) ∈ after.cells

/-! ## One entry -/

def passed (ip : U32) (pre : List (ℕ × MeshRoute)) : Bool :=
  HeapList.passes (fun route => route.ip == ip) pre

/-- There is memory for `n + 1` records of a RERR, from the one with number `i` on. -/
def recordsFrom (env : Env) (i n : ℕ) : Bool :=
  (List.range (n + 1)).all fun j => env.mem (.errRoute (i + j))

/-- There is memory for the records of the RERR up to the one of this entry. -/
def reached (env : Env) (ip : U32) (pre : List (ℕ × MeshRoute)) : Bool :=
  recordsFrom env 0 (pre.countP fun c => through ip c.2)

/-- The neighbour's own route goes to it directly, so that its loss is reported. -/
def reported (ip : U32) (routes : RouteTable) : Bool :=
  match firstRoute routes ip with
  | some (_, route) => route.nextHop == ip
  | none => false

def agedAt (env : Env) (ip : U32) (pre : List (ℕ × MeshRoute)) (route : MeshRoute) : MeshRoute :=
  if passed ip pre then ageRoute env route else route

def toldAt (env : Env) (ip : U32) (pre : List (ℕ × MeshRoute)) (route : MeshRoute) : MeshRoute :=
  if through ip route && reached env ip pre && (agedAt env ip pre route).routeValid then
    routeExpire env (agedAt env ip pre route)
  else agedAt env ip pre route

def tailRoute (env : Env) (route : MeshRoute) : Option MeshRoute :=
  if route.routeValid then some (routeExpire env route) else none

def lostRoute (env : Env) (ip : U32) (routes : RouteTable) (pre : List (ℕ × MeshRoute))
    (route : MeshRoute) : Option MeshRoute :=
  if reported ip routes then
    if passed ip pre && route.ip == ip then tailRoute env (toldAt env ip pre route)
    else some (toldAt env ip pre route)
  else some (agedAt env ip pre route)

theorem recordsFrom_zero (i : ℕ) : recordsFrom env i 0 = env.mem (.errRoute i) := by
  simp [recordsFrom]

theorem recordsFrom_succ (i n : ℕ) :
    recordsFrom env i (n + 1) = (env.mem (.errRoute i) && recordsFrom env (i + 1) n) := by
  simp only [recordsFrom, List.range_succ_eq_map (n := n + 1), List.all_cons, List.all_map,
    Nat.add_zero]
  congr 2
  funext j
  simp [Nat.add_assoc, Nat.add_comm 1 j]

theorem Worn.through_eq {route route' : MeshRoute} (h : Worn env route route') :
    through ip route' = through ip route := by
  rw [through, through, h.nextHop, h.selfRoute]

theorem worn_agedAt (env : Env) (ip : U32) (pre : List (ℕ × MeshRoute)) (route : MeshRoute) :
    Worn env route (agedAt env ip pre route) := by
  unfold agedAt
  split_ifs
  · exact worn_ageRoute route
  · exact .refl route

abbrev WornCells (env : Env) : List (ℕ × MeshRoute) → List (ℕ × MeshRoute) → Prop :=
  List.Forall₂ fun c c' => Worn env c.2 c'.2

theorem WornCells.countP_through {pre pre' : List (ℕ × MeshRoute)} (h : WornCells env pre pre') :
    (pre'.countP fun c => through ip c.2) = pre.countP fun c => through ip c.2 := by
  induction h with
  | nil => rfl
  | cons hworn _ ih => rw [List.countP_cons, List.countP_cons, hworn.through_eq, ih]

theorem walkCells_ageRoute (env : Env) (ip : U32) (pre : List (ℕ × MeshRoute))
    (c : ℕ × MeshRoute) (post : List (ℕ × MeshRoute)) :
    ∃ pre' post', HeapList.walkCells (ageRoute env) (fun route => route.ip == ip)
        (pre ++ c :: post) =
      pre' ++ (c.1, agedAt env ip pre c.2) :: post' ∧ WornCells env pre pre' := by
  obtain ⟨pre', post', hcells, hpre⟩ := HeapList.walkCells_split (ageRoute env)
    (fun route => route.ip == ip) (fun route => by simp) pre c post
  have haged : ∀ c c' : ℕ × MeshRoute, (c'.2 = c.2 ∨ c'.2 = ageRoute env c.2) →
      Worn env c.2 c'.2 :=
    fun c c' hc => Aged.worn hc
  exact ⟨pre', post', hcells, hpre.imp haged⟩

theorem errorCells_split (env : Env) (ip : U32) (pre : List (ℕ × MeshRoute)) (c : ℕ × MeshRoute)
    (post : List (ℕ × MeshRoute)) (dests : List AodvDest) (i : ℕ) :
    ∃ pre' post', (errorCells env ip (pre ++ c :: post) dests i).1 =
      pre' ++ (c.1,
        if through ip c.2 && recordsFrom env i (pre.countP fun c => through ip c.2) &&
            c.2.routeValid then routeExpire env c.2 else c.2) :: post' := by
  induction pre generalizing dests i with
  | nil =>
      rw [List.nil_append, errorCells, List.countP_nil, recordsFrom_zero]
      by_cases hthrough : (c.2.nextHop == ip && !c.2.selfRoute) = true
      · rw [if_pos hthrough]
        by_cases hmem : env.mem (.errRoute i) = true
        · rw [if_pos hmem]
          refine ⟨[], (errorCells env ip post (⟨c.2.ip, c.2.seq⟩ :: dests) (i + 1)).1, ?_⟩
          simp [through, hthrough, hmem]
        · rw [if_neg hmem]
          exact ⟨[], post, by simp [hmem]⟩
      · rw [if_neg hthrough]
        exact ⟨[], (errorCells env ip post dests i).1, by simp [through, hthrough]⟩
  | cons d ds ih =>
      rw [List.cons_append, errorCells]
      by_cases hthrough : (d.2.nextHop == ip && !d.2.selfRoute) = true
      · have hcount : ((d :: ds).countP fun c => through ip c.2) =
            (ds.countP fun c => through ip c.2) + 1 :=
          List.countP_cons_of_pos hthrough
        rw [if_pos hthrough, hcount, recordsFrom_succ]
        by_cases hmem : env.mem (.errRoute i) = true
        · obtain ⟨pre', post', hcells⟩ := ih (⟨d.2.ip, d.2.seq⟩ :: dests) (i + 1)
          rw [if_pos hmem]
          refine ⟨(d.1, if d.2.routeValid then routeExpire env d.2 else d.2) :: pre', post', ?_⟩
          simp [hcells, hmem]
        · rw [if_neg hmem]
          exact ⟨d :: ds, post, by simp [hmem]⟩
      · obtain ⟨pre', post', hcells⟩ := ih dests i
        have hcount : ((d :: ds).countP fun c => through ip c.2) =
            ds.countP fun c => through ip c.2 :=
          List.countP_cons_of_neg hthrough
        rw [if_neg hthrough, hcount]
        exact ⟨d :: pre', post', by simp [hcells]⟩

section Place

variable {routes : RouteTable} {pre post : List (ℕ × MeshRoute)} {p : ℕ} {route : MeshRoute}

theorem passed_iff_first (hcells : routes.cells = pre ++ (p, route) :: post) :
    (passed ip pre = true ∧ route.ip = ip) ↔ firstRoute routes ip = some (p, route) := by
  rw [firstRoute, ← HeapList.passes_iff_find? hcells, beq_iff_eq]
  rfl

theorem passed_iff_pointer (hcells : routes.cells = pre ++ (p, route) :: post) :
    (passed ip pre = true ∧ route.ip = ip) ↔ (firstRoute routes ip).map Prod.fst = some p := by
  rw [firstRoute, ← HeapList.passes_iff_find?_fst hcells, beq_iff_eq]
  rfl

end Place

/-! ## The whole table -/

theorem get?_routeFind {routes : RouteTable} {pre post : List (ℕ × MeshRoute)} {p : ℕ}
    {route : MeshRoute} (hcells : routes.cells = pre ++ (p, route) :: post) :
    (routeFind env ip routes).1.get? p = some (agedAt env ip pre route) := by
  obtain ⟨pre', post', hwalk, -⟩ := walkCells_ageRoute env ip pre (p, route) post
  rw [HeapList.get?_eq_some]
  change _ ∈ HeapList.walkCells _ _ routes.cells
  rw [hcells, hwalk]
  simp

theorem get?_sendError (conf : EngineConf) (env : Env) (ip : U32) {routes : RouteTable}
    {pre post : List (ℕ × MeshRoute)} {p : ℕ} {route : MeshRoute}
    (hcells : routes.cells = pre ++ (p, route) :: post) :
    (sendError conf env ip (routeFind env ip routes).1).1.get? p =
      some (toldAt env ip pre route) := by
  obtain ⟨pre', post', hwalk, hworn⟩ := walkCells_ageRoute env ip pre (p, route) post
  have hfind : (routeFind env ip routes).1.cells = _ := (congrArg _ hcells).trans hwalk
  obtain ⟨pre'', post'', herror⟩ := errorCells_split env ip pre' _ post' [] 0
  rw [HeapList.get?_eq_some, sendError_cells, hfind, herror, hworn.countP_through]
  rw [(worn_agedAt env ip pre route).through_eq]
  simp [toldAt, reached]

theorem neighTail_get? {routes routes' : RouteTable} {p q : ℕ} {route : MeshRoute}
    (htail : neighTail env q routes = some routes') (hget : routes.get? p = some route) :
    routes'.get? p = if p = q then tailRoute env route else some route := by
  obtain ⟨now, hnow, htail⟩ := Option.bind_eq_some_iff.mp htail
  rw [← Option.some.inj htail]
  by_cases hpq : p = q
  · subst hpq
    obtain rfl := Option.some.inj (hnow.symm.trans hget)
    rw [if_pos rfl, tailRoute]
    split_ifs with hvalid
    · rw [HeapList.get?_modify, hget, Option.map_some, if_pos rfl]
    · rw [HeapList.get?_erase, if_pos rfl]
  · rw [if_neg hpq]
    split_ifs with hvalid
    · rw [HeapList.get?_modify, hget, Option.map_some, if_neg hpq]
    · rw [HeapList.get?_erase, if_neg hpq, hget]

theorem mem_of_neighTail {routes routes' : RouteTable} {p q : ℕ} {route' : MeshRoute}
    (htail : neighTail env q routes = some routes') (hmem : (p, route') ∈ routes'.cells) :
    ∃ route, (p, route) ∈ routes.cells := by
  obtain ⟨now, -, htail⟩ := Option.bind_eq_some_iff.mp htail
  rw [← Option.some.inj htail] at hmem
  split_ifs at hmem
  · obtain ⟨route, hroute, -⟩ := HeapList.mem_modify.mp hmem
    exact ⟨route, hroute⟩
  · exact ⟨route', (HeapList.mem_erase.mp hmem).1⟩

theorem neighDelete_get? (conf : EngineConf) (env : Env) {e : RouteEngine} {c : ℕ × RouteNeigh}
    (hneigh : neighFind ip e.neighs = some c) :
    ∃ done, neighDelete conf env ip e = some done ∧
      (∀ pre p route post, e.routes.cells = pre ++ (p, route) :: post →
        done.engine.routes.get? p = lostRoute env ip e.routes pre route) ∧
      ∀ p route', (p, route') ∈ done.engine.routes.cells →
        ∃ route, (p, route) ∈ e.routes.cells := by
  obtain ⟨r, n⟩ := c
  obtain ⟨after, sent, hloss, hdone⟩ := neighDelete_of_known conf env hneigh
  refine ⟨_, hdone, ?_⟩
  change (∀ pre p route post, _ → after.get? p = _) ∧ ∀ p route', (p, route') ∈ after.cells → _
  have hworn := (routeFind_aged env ip e.routes).worn
  cases hloss with
  | unreported hother =>
      have hreported : reported ip e.routes = false := by
        unfold reported
        cases hfirst : firstRoute e.routes ip with
        | none => rfl
        | some own => simpa using hother own.1 own.2 hfirst
      constructor
      · intro pre p route post hcells
        rw [lostRoute, if_neg (by simp [hreported])]
        exact get?_routeFind hcells
      · intro p route' hmem
        obtain ⟨route, hroute, -⟩ := hworn.mem_left hmem
        exact ⟨route, hroute⟩
  | @reported q own _ hfirst hhop htail =>
      have hreported : reported ip e.routes = true := by simp [reported, hfirst, hhop]
      constructor
      · intro pre p route post hcells
        have hplace : passed ip pre = true ∧ route.ip = ip ↔ p = q := by
          rw [passed_iff_pointer hcells, hfirst, Option.map_some, Option.some_inj, eq_comm]
        rw [neighTail_get? htail (get?_sendError conf env ip hcells), lostRoute, if_pos hreported]
        simp only [Bool.and_eq_true, beq_iff_eq, hplace]
      · intro p route' hmem
        obtain ⟨told, htold⟩ := mem_of_neighTail htail hmem
        obtain ⟨route, hroute, -⟩ := (hworn.trans (sendError_worn conf env ip _)).mem_left htold
        exact ⟨route, hroute⟩

/-! ## When the loss is handled -/

/-- Each valid route through the neighbour is met by one of the passes, and by one only. -/
structure LossCovered (env : Env) (ip : U32) (routes : RouteTable) : Prop where
  /-- A route through another neighbour that is over must not come first. -/
  others : ∀ pre p route post, routes.cells = pre ++ (p, route) :: post → route.nextHop ≠ ip →
    passed ip pre = true → timeBefore route.lifetime env.now = true → route.selfRoute = false →
      route.routeValid = true → route.dev = none
  device : ∀ p route, (p, route) ∈ routes.cells → through ip route = true →
    route.routeValid = true → route.dev ≠ none
  /-- The neighbour's own route is deleted once it is invalid. -/
  own : ∀ pre p route post, routes.cells = pre ++ (p, route) :: post → through ip route = true →
    route.routeValid = true → route.ip = ip → passed ip pre = true →
      timeBefore route.lifetime env.now = false ∧ reached env ip pre = false
  rest : ∀ pre p route post, routes.cells = pre ++ (p, route) :: post → through ip route = true →
    route.routeValid = true → ¬(route.ip = ip ∧ passed ip pre = true) →
      (passed ip pre = true ∧ timeBefore route.lifetime env.now = true) ∨
        (reported ip routes = true ∧ reached env ip pre = true)

section Entry

variable {routes : RouteTable} {pre post : List (ℕ × MeshRoute)} {p : ℕ} {route : MeshRoute}

def ExpiredOnce (route : MeshRoute) (after : Option MeshRoute) : Prop :=
  ∃ route', after = some route' ∧ route'.routeValid = false ∧ route'.seq = route.seq + 1

theorem expiredOnce_routeExpire {d : RouteDev} (hdev : route.dev = some d) :
    ExpiredOnce route (some (routeExpire env route)) :=
  ⟨_, rfl, by simp [routeExpire, hdev], by simp [routeExpire, hdev]⟩

theorem not_expiredOnce_self (hvalid : route.routeValid = true) :
    ¬ExpiredOnce route (some route) := by
  rintro ⟨route', heq, hinvalid, -⟩
  obtain rfl := Option.some.inj heq
  rw [hvalid] at hinvalid
  cases hinvalid

theorem ageRoute_learned (hself : route.selfRoute = false) (hvalid : route.routeValid = true) :
    ageRoute env route =
      if timeBefore route.lifetime env.now then routeExpire env route else route := by
  simp [ageRoute, hself, hvalid]

theorem reported_of_first (hcells : routes.cells = pre ++ (p, route) :: post)
    (hpassed : passed ip pre = true) (hip : route.ip = ip) :
    reported ip routes = (route.nextHop == ip) := by
  simp [reported, (passed_iff_first hcells).mp ⟨hpassed, hip⟩]

theorem lostRoute_other (hcells : routes.cells = pre ++ (p, route) :: post)
    (hhop : route.nextHop ≠ ip) :
    lostRoute env ip routes pre route = some (agedAt env ip pre route) := by
  have htold : toldAt env ip pre route = agedAt env ip pre route := by
    simp [toldAt, through, hhop]
  unfold lostRoute
  split_ifs with hreported hown
  · simp only [Bool.and_eq_true, beq_iff_eq] at hown
    rw [reported_of_first hcells hown.1 hown.2] at hreported
    exact absurd hreported (by simpa using hhop)
  · rw [htold]
  · rfl

theorem agedAt_eq_self_iff :
    agedAt env ip pre route = route ↔
      (passed ip pre = true → timeBefore route.lifetime env.now = true →
        route.selfRoute = false → route.routeValid = true → route.dev = none) := by
  unfold agedAt
  split_ifs with hpassed
  · constructor
    · intro heq _ htime hself hvalid
      rw [ageRoute_learned hself hvalid, if_pos htime] at heq
      cases hdev : route.dev with
      | none => rfl
      | some d =>
          have hbad : (routeExpire env route).routeValid = false := by simp [routeExpire, hdev]
          rw [heq, hvalid] at hbad
          cases hbad
    · intro h
      unfold ageRoute
      split_ifs with hover
      · simp only [Bool.and_eq_true, Bool.not_eq_true'] at hover
        simp [routeExpire, h hpassed hover.1.1 hover.1.2 hover.2]
      · rfl
  · exact iff_of_true rfl fun hp => absurd hp hpassed

theorem lostRoute_no_device (hvalid : route.routeValid = true) (hdev : route.dev = none) :
    lostRoute env ip routes pre route = some route := by
  have hexpire : routeExpire env route = route := by simp [routeExpire, hdev]
  have haged : agedAt env ip pre route = route := by
    rw [agedAt_eq_self_iff]
    exact fun _ _ _ _ => hdev
  have htold : toldAt env ip pre route = route := by
    rw [toldAt, haged, hexpire, ite_self]
  unfold lostRoute tailRoute
  rw [haged, htold, hvalid, hexpire]
  simp

section Learned

variable {d : RouteDev} (hthrough : through ip route = true) (hvalid : route.routeValid = true)
  (hdev : route.dev = some d)

include hthrough hvalid in
theorem agedAt_learned :
    agedAt env ip pre route =
      if passed ip pre && timeBefore route.lifetime env.now then routeExpire env route
      else route := by
  have hlearned : route.nextHop = ip ∧ route.selfRoute = false := by
    simpa [through] using hthrough
  unfold agedAt
  cases passed ip pre with
  | true =>
      rw [if_pos rfl, ageRoute_learned hlearned.2 hvalid]
      simp
  | false => simp

include hthrough hvalid hdev in
theorem toldAt_learned :
    toldAt env ip pre route =
      if (passed ip pre && timeBefore route.lifetime env.now) || reached env ip pre then
        routeExpire env route
      else route := by
  have hinvalid : (routeExpire env route).routeValid = false := by simp [routeExpire, hdev]
  unfold toldAt
  rw [agedAt_learned hthrough hvalid, hthrough]
  cases passed ip pre && timeBefore route.lifetime env.now with
  | true => simp [hinvalid]
  | false => simp [hvalid]

include hvalid hdev in
theorem expiredOnce_some_iff (b : Bool) :
    ExpiredOnce route (some (if b then routeExpire env route else route)) ↔ b = true := by
  cases b with
  | true => exact iff_of_true (expiredOnce_routeExpire hdev) rfl
  | false => exact iff_of_false (not_expiredOnce_self hvalid) Bool.false_ne_true

include hvalid hdev in
theorem expiredOnce_tail_iff (b : Bool) :
    ExpiredOnce route (tailRoute env (if b then routeExpire env route else route)) ↔
      b = false := by
  cases b with
  | true =>
      have hinvalid : (routeExpire env route).routeValid = false := by simp [routeExpire, hdev]
      refine iff_of_false ?_ Bool.true_eq_false.mp
      rintro ⟨route', heq, -⟩
      simp [tailRoute, hinvalid] at heq
  | false =>
      refine iff_of_true ?_ rfl
      rw [if_neg Bool.false_ne_true, tailRoute, if_pos hvalid]
      exact expiredOnce_routeExpire hdev

end Learned

/-- A valid route through the neighbour: what must happen so that it is expired once. -/
theorem expiredOnce_iff (hcells : routes.cells = pre ++ (p, route) :: post)
    (hthrough : through ip route = true) (hvalid : route.routeValid = true) :
    ExpiredOnce route (lostRoute env ip routes pre route) ↔
      route.dev ≠ none ∧
      (route.ip = ip → passed ip pre = true →
        timeBefore route.lifetime env.now = false ∧ reached env ip pre = false) ∧
      (¬(route.ip = ip ∧ passed ip pre = true) →
        (passed ip pre = true ∧ timeBefore route.lifetime env.now = true) ∨
          (reported ip routes = true ∧ reached env ip pre = true)) := by
  cases hdev : route.dev with
  | none =>
      rw [lostRoute_no_device hvalid hdev]
      exact iff_of_false (not_expiredOnce_self hvalid) fun h => h.1 rfl
  | some d =>
      by_cases hown : route.ip = ip ∧ passed ip pre = true
      · have hhop : route.nextHop = ip := by
          simp only [through, Bool.and_eq_true, beq_iff_eq] at hthrough
          exact hthrough.1
        have hreported : reported ip routes = true := by
          rw [reported_of_first hcells hown.2 hown.1]
          simpa using hhop
        have hlost : lostRoute env ip routes pre route =
            tailRoute env (toldAt env ip pre route) := by
          simp [lostRoute, hreported, hown.1, hown.2]
        rw [hlost, toldAt_learned hthrough hvalid hdev, expiredOnce_tail_iff hvalid hdev]
        simp [hown.1, hown.2]
      · have hplace : ¬(passed ip pre && route.ip == ip) = true := by
          simpa [and_comm] using hown
        rw [lostRoute, if_neg hplace, agedAt_learned hthrough hvalid,
          toldAt_learned hthrough hvalid hdev]
        cases reported ip routes with
        | true =>
            rw [if_pos rfl, expiredOnce_some_iff hvalid hdev]
            grind
        | false =>
            rw [if_neg Bool.false_ne_true, expiredOnce_some_iff hvalid hdev]
            grind

theorem through_routeExpire (route : MeshRoute) :
    through ip (routeExpire env route) = through ip route := by
  unfold routeExpire
  split <;> rfl

theorem Worn.valid {route route' : MeshRoute} (h : Worn env route route')
    (hvalid : route'.routeValid = true) : route.routeValid = true := by
  rcases h with rfl | ⟨-, hwas, -⟩
  · exact hvalid
  · exact hwas

theorem worn_toldAt : Worn env route (toldAt env ip pre route) := by
  have haged := worn_agedAt env ip pre route
  refine haged.trans ?_
  unfold toldAt
  split_ifs with htold
  · simp only [through, Bool.and_eq_true, Bool.not_eq_true'] at htold
    have hself : (agedAt env ip pre route).selfRoute = false :=
      haged.selfRoute.trans htold.1.1.2
    exact .inr ⟨hself, htold.2, rfl⟩
  · exact .refl _

theorem through_lostRoute {route' : MeshRoute}
    (hlost : lostRoute env ip routes pre route = some route') :
    through ip route' = through ip route ∧
      (route'.routeValid = true → route.routeValid = true) := by
  have haged := worn_agedAt env ip pre route
  have htold : Worn env route (toldAt env ip pre route) := worn_toldAt
  unfold lostRoute tailRoute at hlost
  split_ifs at hlost with _ _ hvalid
  · rw [← Option.some.inj hlost, through_routeExpire]
    exact ⟨htold.through_eq, fun _ => htold.valid hvalid⟩
  · rw [← Option.some.inj hlost]
    exact ⟨htold.through_eq, htold.valid⟩
  · rw [← Option.some.inj hlost]
    exact ⟨haged.through_eq, haged.valid⟩

end Entry

/-- The passes cover the routes when they expire each one through the neighbour and no other. -/
theorem lossCovered_iff (env : Env) (ip : U32) (routes : RouteTable) :
    LossCovered env ip routes ↔
      (∀ pre p route post, routes.cells = pre ++ (p, route) :: post → through ip route = true →
        route.routeValid = true → ExpiredOnce route (lostRoute env ip routes pre route)) ∧
      ∀ pre p route post, routes.cells = pre ++ (p, route) :: post → route.nextHop ≠ ip →
        lostRoute env ip routes pre route = some route := by
  constructor
  · intro h
    constructor
    · intro pre p route post hcells hthrough hvalid
      rw [expiredOnce_iff hcells hthrough hvalid]
      exact ⟨h.device p route (by simp [hcells]) hthrough hvalid,
        h.own pre p route post hcells hthrough hvalid,
        h.rest pre p route post hcells hthrough hvalid⟩
    · intro pre p route post hcells hhop
      rw [lostRoute_other hcells hhop, agedAt_eq_self_iff.mpr]
      exact h.others pre p route post hcells hhop
  · rintro ⟨hexpired, hkept⟩
    have hcovered := fun pre p route post hcells hthrough hvalid =>
      (expiredOnce_iff hcells hthrough hvalid).mp
        (hexpired pre p route post hcells hthrough hvalid)
    constructor
    · intro pre p route post hcells hhop
      have hsame := hkept pre p route post hcells hhop
      rw [lostRoute_other hcells hhop] at hsame
      exact agedAt_eq_self_iff.mp (Option.some.inj hsame)
    · intro p route hmem hthrough hvalid
      obtain ⟨pre, post, hcells⟩ := List.append_of_mem hmem
      exact (hcovered pre p route post hcells hthrough hvalid).1
    · intro pre p route post hcells hthrough hvalid
      exact (hcovered pre p route post hcells hthrough hvalid).2.1
    · intro pre p route post hcells hthrough hvalid
      exact (hcovered pre p route post hcells hthrough hvalid).2.2

/-- The loss of a neighbour is handled in full exactly when the passes cover its routes. -/
theorem neigh_loss_iff (conf : EngineConf) (env : Env) (ip : U32) {e : RouteEngine}
    {c : ℕ × RouteNeigh} (hneigh : neighFind ip e.neighs = some c) :
    ∃ done, neighDelete conf env ip e = some done ∧
      (LossHandled ip e.routes done.engine.routes ↔ LossCovered env ip e.routes) := by
  obtain ⟨done, hdone, hget, horigin⟩ := neighDelete_get? conf env hneigh
  refine ⟨done, hdone, ?_⟩
  rw [lossCovered_iff]
  constructor
  · intro h
    constructor
    · intro pre p route post hcells hthrough hvalid
      obtain ⟨route', hmem, hafter⟩ := h.expired p route (by simp [hcells]) hthrough hvalid
      rw [← hget pre p route post hcells]
      exact ⟨route', HeapList.get?_eq_some.mpr hmem, hafter⟩
    · intro pre p route post hcells hhop
      rw [← hget pre p route post hcells]
      exact HeapList.get?_eq_some.mpr (h.kept p route (by simp [hcells]) hhop)
  · rintro ⟨hexpired, hkept⟩
    constructor
    · intro p route hmem hthrough hvalid
      obtain ⟨pre, post, hcells⟩ := List.append_of_mem hmem
      obtain ⟨route', hlost, hafter⟩ := hexpired pre p route post hcells hthrough hvalid
      rw [← hget pre p route post hcells] at hlost
      exact ⟨route', HeapList.get?_eq_some.mp hlost, hafter⟩
    · intro p route' hmem hthrough
      obtain ⟨route, hroute⟩ := horigin p route' hmem
      obtain ⟨pre, post, hcells⟩ := List.append_of_mem hroute
      have hlost := (hget pre p route post hcells).symm.trans (HeapList.get?_eq_some.mpr hmem)
      obtain ⟨hsame, hwas⟩ := through_lostRoute hlost
      rw [hsame] at hthrough
      cases hvalid : route'.routeValid with
      | false => rfl
      | true =>
          obtain ⟨expired, heq, hinvalid, -⟩ :=
            hexpired pre p route post hcells hthrough (hwas hvalid)
          obtain rfl := Option.some.inj (heq.symm.trans hlost)
          exact hvalid.symm.trans hinvalid
    · intro p route hmem hhop
      obtain ⟨pre, post, hcells⟩ := List.append_of_mem hmem
      rw [← HeapList.get?_eq_some, hget pre p route post hcells]
      exact hkept pre p route post hcells hhop

/-- Without memory for the RERR it is the tail that expires the neighbour's own route. -/
theorem neigh_loss_unreported : ∃ e, heardNeighbour = some e ∧
    ∃ done, neighDelete (lanNode true 0x0a000001).1 (.exhausted 200) 0x0a000002 e = some done ∧
      LossHandled 0x0a000002 e.routes done.engine.routes := by
  have hheard : heardNeighbour.any (fun e =>
      (neighFind 0x0a000002 e.neighs).isSome &&
      ((firstRoute e.routes 0x0a000002).map Prod.fst == some 2) &&
      e.routes.cells.all fun c =>
        if c.2.nextHop = 0x0a000002 then
          c.1 == 2 && c.2.dev.isSome && !timeBefore c.2.lifetime 200
        else c.2.selfRoute) = true := by
    decide +kernel
  obtain ⟨e, he, hfacts⟩ := (Option.any_eq_true _ _).mp hheard
  simp only [Bool.and_eq_true, Option.isSome_iff_exists, beq_iff_eq, List.all_eq_true] at hfacts
  obtain ⟨⟨⟨c, hneigh⟩, hfirst⟩, hcells⟩ := hfacts
  obtain ⟨done, hdone, hiff⟩ :=
    neigh_loss_iff (lanNode true 0x0a000001).1 (.exhausted 200) 0x0a000002 hneigh
  refine ⟨e, he, done, hdone, hiff.mpr ?_⟩
  have hentry : ∀ pre p route post, e.routes.cells = pre ++ (p, route) :: post →
      through 0x0a000002 route = true →
        p = 2 ∧ route.dev ≠ none ∧ timeBefore route.lifetime 200 = false := by
    intro pre p route post heq hthrough
    have hcell := hcells (p, route) (by simp [heq])
    simp only [through, Bool.and_eq_true, beq_iff_eq] at hthrough
    simpa [hthrough.1, Option.isSome_iff_ne_none, and_assoc] using hcell
  constructor
  · intro pre p route post heq hhop _ _ hself
    have hcell := hcells (p, route) (by simp [heq])
    rw [if_neg hhop, hself] at hcell
    cases hcell
  · intro p route hmem hthrough _
    obtain ⟨pre, post, heq⟩ := List.append_of_mem hmem
    exact (hentry pre p route post heq hthrough).2.1
  · intro pre p route post heq hthrough _ _ _
    refine ⟨(hentry pre p route post heq hthrough).2.2, ?_⟩
    rw [reached, recordsFrom, List.range_succ_eq_map, List.all_cons]
    rfl
  · intro pre p route post heq hthrough _ hother
    obtain ⟨rfl, -⟩ := hentry pre p route post heq hthrough
    exact absurd ((passed_iff_pointer heq).mpr hfirst).symm hother

/-- The neighbour's own route is expired by the RERR and then deleted by the tail. -/
theorem neigh_loss_forgets : ∃ e, heardNeighbour = some e ∧
    (neighFind 0x0a000002 e.neighs).isSome = true ∧
    ∃ done, neighDelete (lanNode true 0x0a000001).1 (.plenty 200) 0x0a000002 e = some done ∧
      ¬LossHandled 0x0a000002 e.routes done.engine.routes := by
  have hheard : heardNeighbour.any (fun e =>
      (neighFind 0x0a000002 e.neighs).isSome &&
      (e.routes.get? 2).any (fun route => through 0x0a000002 route && route.routeValid) &&
      (neighDelete (lanNode true 0x0a000001).1 (.plenty 200) 0x0a000002 e).any fun done =>
        (done.engine.routes.get? 2).isNone) = true := by
    decide +kernel
  obtain ⟨e, he, hfacts⟩ := (Option.any_eq_true _ _).mp hheard
  simp only [Bool.and_eq_true, Option.any_eq_true, Option.isNone_iff_eq_none] at hfacts
  obtain ⟨⟨hneigh, own, hown, hthrough, hvalid⟩, done, hdone, hgone⟩ := hfacts
  refine ⟨e, he, hneigh, done, hdone, ?_⟩
  intro h
  obtain ⟨route, hmem, -⟩ := h.expired 2 own (HeapList.get?_eq_some.mp hown) hthrough hvalid
  rw [HeapList.get?_eq_some.mpr hmem] at hgone
  cases hgone

end Maodv
end WirelessMesh
