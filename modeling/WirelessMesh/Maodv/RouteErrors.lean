import WirelessMesh.Maodv.NeighLoss

/-!
# Received RERRs

A RERR lists the destinations that its sender no longer reaches; the receiver expires its own
routes to them that go through the sender. `_engine_rx_error` looks each destination up and
stops at the first such route, where it writes through a null pointer when it gets memory for
the record, and returns when it does not.
-/

namespace WirelessMesh
namespace Maodv

open Routes

variable {env : Env} {srcIp : U32}

/-- The routes a RERR of `srcIp` calls broken become invalid, and the others are left as the
lookups leave them. -/
structure ErrorHandled (env : Env) (srcIp : U32) (dests : List AodvDest)
    (before after : RouteTable) : Prop where
  broken : ∀ p route, (p, route) ∈ before.cells → route.ip ∈ dests.map AodvDest.ip →
    through srcIp route = true → route.routeValid = true →
      ∃ route', (p, route') ∈ after.cells ∧ route'.routeValid = false
  kept : ∀ p route, (p, route) ∈ before.cells →
    ¬(route.ip ∈ dests.map AodvDest.ip ∧ through srcIp route = true ∧ route.routeValid = true) →
      ∃ route', (p, route') ∈ after.cells ∧ Aged env route route'
  old : ∀ p route', (p, route') ∈ after.cells → ∃ route, (p, route) ∈ before.cells

/-! ## The loop -/

/-- The entry found for a listed destination is a learned route through the sender. -/
def viaSender (srcIp : U32) (routes : RouteTable) (dest : AodvDest) : Bool :=
  (firstRoute routes dest.ip).any fun c => through srcIp c.2

/-- The destinations before the first one that is reached through the sender. -/
def unaffected (srcIp : U32) (routes : RouteTable) (dests : List AodvDest) : List AodvDest :=
  dests.takeWhile fun dest => !viaSender srcIp routes dest

def lookedUp (srcIp : U32) (routes : RouteTable) (dests : List AodvDest) : List AodvDest :=
  unaffected srcIp routes dests ++ (dests.find? (viaSender srcIp routes)).toList

def lookups (env : Env) (dests : List AodvDest) (routes : RouteTable) : RouteTable :=
  routes.walks (ageRoute env) (dests.map fun dest route => route.ip == dest.ip)

@[simp] theorem lookups_nil (routes : RouteTable) : lookups env [] routes = routes := rfl

@[simp] theorem lookups_cons (dest : AodvDest) (dests : List AodvDest) (routes : RouteTable) :
    lookups env (dest :: dests) routes = lookups env dests (routeFind env dest.ip routes).1 := rfl

def writeSeq (dest : AodvDest) (routes : RouteTable) : RouteTable :=
  match firstRoute routes dest.ip with
  | some (p, _) => routes.modify p fun route => { route with seq := dest.seq }
  | none => routes

theorem lookups_aged (env : Env) (dests : List AodvDest) (routes : RouteTable) :
    AgedTable env routes (lookups env dests routes) := by
  induction dests generalizing routes with
  | nil => exact .refl routes
  | cons dest dests ih => exact (routeFind_aged env dest.ip routes).trans (ih _)

theorem WornTable.viaSender_eq {routes routes' : RouteTable} (h : WornTable env routes routes') :
    viaSender srcIp routes' = viaSender srcIp routes := by
  funext dest
  unfold viaSender
  rcases h.firstRoute_eq dest.ip with ⟨hnone, hnone'⟩ | ⟨p, r, r', hfirst, hfirst', hworn⟩
  · rw [hnone, hnone']
  · rw [hfirst, hfirst', Option.any_some, Option.any_some, hworn.through_eq]

theorem rxErrorLoop_cons (env : Env) (srcIp : U32) (dest : AodvDest) (dests : List AodvDest)
    (i : ℕ) (routes : RouteTable) :
    rxErrorLoop env srcIp (dest :: dests) i routes =
      if viaSender srcIp routes dest then
        if env.mem (.errRoute i) then none
        else some (writeSeq dest (routeFind env dest.ip routes).1)
      else rxErrorLoop env srcIp dests (i + 1) (routeFind env dest.ip routes).1 := by
  have hfirst := firstRoute_routeFind env dest.ip routes
  have hfound := routeFind_found env dest.ip routes
  rw [rxErrorLoop, viaSender]
  generalize routeFind env dest.ip routes = res at hfirst hfound
  obtain ⟨aged, found⟩ := res
  cases hentry : firstRoute routes dest.ip with
  | none =>
      rw [hentry] at hfound
      obtain rfl : found = none := hfound
      simp
  | some c =>
      obtain ⟨p, route⟩ := c
      rw [hentry, Option.map_some] at hfound hfirst
      obtain rfl : found = some (p, ageRoute env route) := hfound
      have hworn : Worn env route (ageRoute env route) := worn_ageRoute route
      have hwrite : writeSeq dest aged = aged.modify p fun r => { r with seq := dest.seq } := by
        rw [writeSeq, hfirst]
      simp [hwrite, through, hworn.selfRoute, hworn.nextHop, and_comm]

/-- The loop ends at the first destination that is reached through the sender. -/
theorem rxErrorLoop_eq (env : Env) (srcIp : U32) (dests : List AodvDest) (i : ℕ)
    (routes : RouteTable) :
    rxErrorLoop env srcIp dests i routes =
      match dests.find? (viaSender srcIp routes) with
      | none => some (lookups env (lookedUp srcIp routes dests) routes)
      | some dest =>
          if env.mem (.errRoute (i + (unaffected srcIp routes dests).length)) then none
          else some (writeSeq dest (lookups env (lookedUp srcIp routes dests) routes)) := by
  induction dests generalizing i routes with
  | nil => rfl
  | cons dest dests ih =>
      rw [rxErrorLoop_cons, List.find?_cons]
      cases hvia : viaSender srcIp routes dest with
      | true => simp [unaffected, lookedUp, hvia]
      | false =>
          have hsame : viaSender srcIp (routeFind env dest.ip routes).1 = viaSender srcIp routes :=
            (routeFind_aged env dest.ip routes).worn.viaSender_eq
          rw [if_neg Bool.false_ne_true, ih, unaffected, lookedUp, hsame]
          simp [unaffected, lookedUp, hvia, hsame, Nat.add_assoc, Nat.add_comm 1]

/-! ## One entry -/

def lookedAt (env : Env) (dests : List AodvDest) (pre : List (ℕ × MeshRoute))
    (route : MeshRoute) : MeshRoute :=
  if dests.any fun dest => passed dest.ip pre then ageRoute env route else route

def errorAt (env : Env) (srcIp : U32) (routes : RouteTable) (dests : List AodvDest)
    (pre : List (ℕ × MeshRoute)) (route : MeshRoute) : MeshRoute :=
  match dests.find? (viaSender srcIp routes) with
  | none => lookedAt env (lookedUp srcIp routes dests) pre route
  | some dest =>
      if passed dest.ip pre ∧ route.ip = dest.ip then
        { lookedAt env (lookedUp srcIp routes dests) pre route with seq := dest.seq }
      else lookedAt env (lookedUp srcIp routes dests) pre route

section Entry

variable {routes : RouteTable} {pre post : List (ℕ × MeshRoute)} {p : ℕ} {route : MeshRoute}

theorem get?_lookups (env : Env) (dests : List AodvDest)
    (hcells : routes.cells = pre ++ (p, route) :: post) :
    (lookups env dests routes).get? p = some (lookedAt env dests pre route) := by
  have hstops : ∀ stop ∈ dests.map fun dest (route : MeshRoute) => route.ip == dest.ip,
      ∀ route, stop (ageRoute env route) = stop route := by
    simp
  rw [lookups, HeapList.get?_walks ageRoute_idem hstops hcells, List.any_map]
  rfl

theorem firstRoute_lookups (env : Env) (dests : List AodvDest) (ip : U32) (routes : RouteTable) :
    (firstRoute (lookups env dests routes) ip).map Prod.fst =
      (firstRoute routes ip).map Prod.fst := by
  rcases (lookups_aged env dests routes).worn.firstRoute_eq ip with
    ⟨hnone, hnone'⟩ | ⟨p, r, r', hfirst, hfirst', -⟩
  · rw [hnone, hnone']
  · rw [hfirst, hfirst']
    rfl

theorem get?_writeSeq (dest : AodvDest) (routes : RouteTable) (p : ℕ) :
    (writeSeq dest routes).get? p = (routes.get? p).map fun route =>
      if (firstRoute routes dest.ip).map Prod.fst = some p then { route with seq := dest.seq }
      else route := by
  unfold writeSeq
  cases hfirst : firstRoute routes dest.ip with
  | none => simp
  | some c =>
      dsimp only
      rw [HeapList.get?_modify]
      simp [eq_comm]

theorem rxErrorLoop_get? {dests : List AodvDest} {i : ℕ} {after : RouteTable}
    (hloop : rxErrorLoop env srcIp dests i routes = some after)
    (hcells : routes.cells = pre ++ (p, route) :: post) :
    after.get? p = some (errorAt env srcIp routes dests pre route) := by
  rw [rxErrorLoop_eq] at hloop
  unfold errorAt
  cases hfind : dests.find? (viaSender srcIp routes) with
  | none =>
      rw [hfind] at hloop
      rw [← Option.some.inj hloop]
      exact get?_lookups env _ hcells
  | some dest =>
      rw [hfind] at hloop
      dsimp only at hloop ⊢
      split_ifs at hloop with hmem
      rw [← Option.some.inj hloop, get?_writeSeq, firstRoute_lookups, get?_lookups env _ hcells]
      simp only [Option.map_some, passed_iff_pointer hcells]

end Entry

theorem mem_of_rxErrorLoop {dests : List AodvDest} {i : ℕ} {routes after : RouteTable}
    (hloop : rxErrorLoop env srcIp dests i routes = some after) {p : ℕ} {route' : MeshRoute}
    (hmem : (p, route') ∈ after.cells) : ∃ route, (p, route) ∈ routes.cells := by
  rcases rxErrorLoop_cases (.refl routes) hloop with
    ⟨-, haged⟩ | ⟨dest, q, r, t, -, -, -, haged, rfl⟩
  · obtain ⟨route, hroute, -⟩ := haged.mem_left hmem
    exact ⟨route, hroute⟩
  · obtain ⟨told, htold, -⟩ := HeapList.mem_modify.mp hmem
    obtain ⟨route, hroute, -⟩ := haged.mem_left htold
    exact ⟨route, hroute⟩

/-! ## When the RERR is handled -/

structure ErrorCovered (env : Env) (srcIp : U32) (dests : List AodvDest) (routes : RouteTable) :
    Prop where
  /-- With memory for the record the first route through the sender is fatal. -/
  ends : ∀ dest, dests.find? (viaSender srcIp routes) = some dest →
    env.mem (.errRoute (unaffected srcIp routes dests).length) = false
  /-- The number of that route is written even if the route is not valid. -/
  written : ∀ dest p route, dests.find? (viaSender srcIp routes) = some dest →
    firstRoute routes dest.ip = some (p, route) → route.routeValid = false → route.seq = dest.seq
  overdue : ∀ pre p route post, routes.cells = pre ++ (p, route) :: post →
    route.ip ∈ dests.map AodvDest.ip → through srcIp route = true → route.routeValid = true →
      timeBefore route.lifetime env.now = true ∧ route.dev ≠ none ∧
        ∃ dest ∈ lookedUp srcIp routes dests, passed dest.ip pre = true

section Entry

variable {routes : RouteTable} {dests : List AodvDest} {pre post : List (ℕ × MeshRoute)} {p : ℕ}
  {route : MeshRoute}

theorem aged_lookedAt : Aged env route (lookedAt env dests pre route) := by
  unfold lookedAt
  split_ifs
  · exact .inr rfl
  · exact .inl rfl

theorem lookedAt_of_invalid (hinvalid : route.routeValid = false) :
    lookedAt env dests pre route = route := by
  simp [lookedAt, ageRoute, hinvalid]

/-- A valid route through the sender is expired by a lookup that finds it over. -/
theorem lookedAt_invalid_iff (hthrough : through srcIp route = true)
    (hvalid : route.routeValid = true) :
    (lookedAt env dests pre route).routeValid = false ↔
      timeBefore route.lifetime env.now = true ∧ route.dev ≠ none ∧
        ∃ dest ∈ dests, passed dest.ip pre = true := by
  have hself : route.selfRoute = false := by
    simp only [through, Bool.and_eq_true, Bool.not_eq_true'] at hthrough
    exact hthrough.2
  have hdev : (routeExpire env route).routeValid = false ↔ route.dev ≠ none := by
    cases hdev : route.dev <;> simp [routeExpire, hdev, hvalid]
  unfold lookedAt
  rw [ageRoute_learned hself hvalid]
  split_ifs with hpassed htime
  · simpa [hdev, htime] using fun _ => hpassed
  · simp [hvalid, htime]
  · simpa [hvalid] using fun _ _ => hpassed

theorem errorAt_routeValid :
    (errorAt env srcIp routes dests pre route).routeValid =
      (lookedAt env (lookedUp srcIp routes dests) pre route).routeValid := by
  unfold errorAt
  cases dests.find? (viaSender srcIp routes) with
  | none => rfl
  | some dest =>
      dsimp only
      split_ifs <;> rfl

/-- The entry whose number the loop writes is a listed route through the sender. -/
theorem invalid_of_find? {dest : AodvDest}
    (hfind : dests.find? (viaSender srcIp routes) = some dest)
    (hfirst : firstRoute routes dest.ip = some (p, route))
    (hother : ¬(route.ip ∈ dests.map AodvDest.ip ∧ through srcIp route = true ∧
      route.routeValid = true)) :
    route.routeValid = false := by
  have hlisted : route.ip ∈ dests.map AodvDest.ip := by
    rw [firstRoute_ip hfirst]
    exact List.mem_map_of_mem (List.mem_of_find?_eq_some hfind)
  have hthrough := List.find?_some hfind
  rw [viaSender, hfirst, Option.any_some] at hthrough
  by_contra hvalid
  exact hother ⟨hlisted, hthrough, by simpa using hvalid⟩

/-- An entry that is not to be expired is left alone unless its number is written. -/
theorem aged_errorAt_iff (hcells : routes.cells = pre ++ (p, route) :: post)
    (hother : ¬(route.ip ∈ dests.map AodvDest.ip ∧ through srcIp route = true ∧
      route.routeValid = true)) :
    Aged env route (errorAt env srcIp routes dests pre route) ↔
      ∀ dest, dests.find? (viaSender srcIp routes) = some dest →
        firstRoute routes dest.ip = some (p, route) → route.seq = dest.seq := by
  unfold errorAt
  cases hfind : dests.find? (viaSender srcIp routes) with
  | none => exact iff_of_true aged_lookedAt fun dest heq => by cases heq
  | some dest =>
      dsimp only
      have hplace : passed dest.ip pre = true ∧ route.ip = dest.ip ↔ _ := passed_iff_first hcells
      by_cases hfirst : firstRoute routes dest.ip = some (p, route)
      · have hinvalid := invalid_of_find? hfind hfirst hother
        have hage : ageRoute env route = route := by simp [ageRoute, hinvalid]
        rw [if_pos (hplace.mpr hfirst), lookedAt_of_invalid hinvalid, Aged, hage, or_self]
        constructor
        · rintro hsame dest' heq -
          obtain rfl := Option.some.inj heq
          exact (congrArg MeshRoute.seq hsame).symm
        · intro h
          rw [← h dest rfl hfirst]
      · rw [if_neg (mt hplace.mp hfirst)]
        refine iff_of_true aged_lookedAt ?_
        rintro dest' heq hfirst'
        obtain rfl := Option.some.inj heq
        exact absurd hfirst' hfirst

end Entry

theorem rxErrorLoop_ends_iff (env : Env) (srcIp : U32) (dests : List AodvDest) (i : ℕ)
    (routes : RouteTable) :
    (∃ after, rxErrorLoop env srcIp dests i routes = some after) ↔
      ∀ dest, dests.find? (viaSender srcIp routes) = some dest →
        env.mem (.errRoute (i + (unaffected srcIp routes dests).length)) = false := by
  rw [rxErrorLoop_eq]
  cases dests.find? (viaSender srcIp routes) with
  | none => exact iff_of_true ⟨_, rfl⟩ fun dest heq => by cases heq
  | some dest =>
      cases hmem : env.mem (.errRoute (i + (unaffected srcIp routes dests).length)) <;> simp

theorem errorHandled_iff {dests : List AodvDest} {i : ℕ} {routes after : RouteTable}
    (hloop : rxErrorLoop env srcIp dests i routes = some after) :
    ErrorHandled env srcIp dests routes after ↔
      (∀ dest p route, dests.find? (viaSender srcIp routes) = some dest →
        firstRoute routes dest.ip = some (p, route) → route.routeValid = false →
          route.seq = dest.seq) ∧
      ∀ pre p route post, routes.cells = pre ++ (p, route) :: post →
        route.ip ∈ dests.map AodvDest.ip → through srcIp route = true →
        route.routeValid = true →
          timeBefore route.lifetime env.now = true ∧ route.dev ≠ none ∧
            ∃ dest ∈ lookedUp srcIp routes dests, passed dest.ip pre = true := by
  have hafter : ∀ pre p route post route', routes.cells = pre ++ (p, route) :: post →
      ((p, route') ∈ after.cells ↔ errorAt env srcIp routes dests pre route = route') := by
    intro pre p route post route' hcells
    rw [← HeapList.get?_eq_some, rxErrorLoop_get? hloop hcells, Option.some_inj]
  constructor
  · intro h
    constructor
    · intro dest p route hfind hfirst hinvalid
      obtain ⟨pre, post, hcells⟩ := List.append_of_mem (firstRoute_mem hfirst)
      have hother : ¬(route.ip ∈ dests.map AodvDest.ip ∧ through srcIp route = true ∧
          route.routeValid = true) := by
        simp [hinvalid]
      obtain ⟨route', hmem, haged⟩ := h.kept p route (firstRoute_mem hfirst) hother
      rw [← (hafter pre p route post route' hcells).mp hmem] at haged
      exact (aged_errorAt_iff hcells hother).mp haged dest hfind hfirst
    · intro pre p route post hcells hlisted hthrough hvalid
      obtain ⟨route', hmem, hinvalid⟩ := h.broken p route (by simp [hcells]) hlisted hthrough hvalid
      rw [← (hafter pre p route post route' hcells).mp hmem, errorAt_routeValid] at hinvalid
      exact (lookedAt_invalid_iff hthrough hvalid).mp hinvalid
  · rintro ⟨hwritten, hover⟩
    constructor
    · intro p route hmem hlisted hthrough hvalid
      obtain ⟨pre, post, hcells⟩ := List.append_of_mem hmem
      refine ⟨_, (hafter pre p route post _ hcells).mpr rfl, ?_⟩
      rw [errorAt_routeValid, lookedAt_invalid_iff hthrough hvalid]
      exact hover pre p route post hcells hlisted hthrough hvalid
    · intro p route hmem hother
      obtain ⟨pre, post, hcells⟩ := List.append_of_mem hmem
      refine ⟨_, (hafter pre p route post _ hcells).mpr rfl, ?_⟩
      rw [aged_errorAt_iff hcells hother]
      intro dest hfind hfirst
      exact hwritten dest p route hfind hfirst (invalid_of_find? hfind hfirst hother)
    · intro p route' hmem
      exact mem_of_rxErrorLoop hloop hmem

/-- A RERR that is accepted is handled exactly when the lookups do it. -/
theorem rx_error_iff (env : Env) (packet : RouteTask) (errpdu : AodvPduError) (e : RouteEngine)
    (haccepted : validProtocolPdu (.error errpdu) = true) :
    (∃ done, rxError env packet errpdu e = some done ∧
      ErrorHandled env packet.srcIp errpdu.dests e.routes done.engine.routes) ↔
      ErrorCovered env packet.srcIp errpdu.dests e.routes := by
  have hlength : errpdu.dests.length = errpdu.dstCount.toNat := by
    simpa [validProtocolPdu] using haccepted
  have htake : errpdu.dests.take errpdu.dstCount.toNat = errpdu.dests :=
    List.take_of_length_le hlength.le
  have hends := rxErrorLoop_ends_iff env packet.srcIp errpdu.dests 0 e.routes
  rw [Nat.zero_add] at hends
  constructor
  · rintro ⟨done, hdone, h⟩
    obtain ⟨after, rfl, hloop⟩ := rxError_cases hdone
    rw [htake] at hloop
    obtain ⟨hwritten, hover⟩ := (errorHandled_iff hloop).mp h
    exact ⟨hends.mp ⟨after, hloop⟩, hwritten, hover⟩
  · intro h
    obtain ⟨after, hloop⟩ := hends.mpr h.ends
    refine ⟨⟨0, { e with routes := after }, []⟩, ?_,
      (errorHandled_iff hloop).mpr ⟨h.written, h.overdue⟩⟩
    rw [rxError, htake, hloop]
    rfl

/-- The RERR in which `10.0.0.2` says that it is not reachable, as its neighbour reads it. -/
def partingError : AodvPduError :=
  { type := rerrMessage, n := false, reserved := 0, dstCount := 1, dests := [⟨0x0a000002, 9⟩] }

def partingTask (now : U32) : RouteTask :=
  lanTask now (lanDev 0x0a000001) 0x0a000002 (.error partingError)

/-- The route is over when the RERR comes, and there is no memory for the record. -/
theorem rx_error_over : ∃ e, heardNeighbour = some e ∧
    ∃ done, rxError (.exhausted 5000) (partingTask 5000) partingError e = some done ∧
      ErrorHandled (.exhausted 5000) 0x0a000002 partingError.dests e.routes
        done.engine.routes := by
  have hheard : heardNeighbour.any (fun e =>
      (firstRoute e.routes 0x0a000002).any (fun c => c.2.routeValid) &&
      (lookedUp 0x0a000002 e.routes partingError.dests == partingError.dests) &&
      e.routes.cells.all fun c =>
        c.2.ip != 0x0a000002 || c.2.dev.isSome && timeBefore c.2.lifetime 5000 &&
          (firstRoute e.routes 0x0a000002).map Prod.fst == some c.1) = true := by
    decide +kernel
  obtain ⟨e, he, hfacts⟩ := (Option.any_eq_true _ _).mp hheard
  simp only [Bool.and_eq_true, beq_iff_eq, List.all_eq_true] at hfacts
  obtain ⟨⟨hvalid, hlooked⟩, hcells⟩ := hfacts
  refine ⟨e, he, (rx_error_iff _ (partingTask 5000) partingError e rfl).mpr ?_⟩
  constructor
  · intro dest _
    rfl
  · intro dest p route hfind hfirst hinvalid
    obtain rfl : dest = ⟨0x0a000002, 9⟩ := List.mem_singleton.mp (List.mem_of_find?_eq_some hfind)
    rw [hfirst, Option.any_some, hinvalid] at hvalid
    cases hvalid
  · intro pre p route post heq hlisted _ _
    have hip : route.ip = 0x0a000002 := List.mem_singleton.mp hlisted
    have hcell := hcells (p, route) (by simp [heq])
    simp only [hip, bne_self_eq_false, Bool.false_or, Bool.and_eq_true, beq_iff_eq,
      Option.isSome_iff_ne_none] at hcell
    refine ⟨hcell.1.2, hcell.1.1, ⟨0x0a000002, 9⟩, ?_, ?_⟩
    · rw [show lookedUp (partingTask 5000).srcIp _ _ = _ from hlooked]
      exact List.mem_singleton_self _
    · exact ((passed_iff_pointer heq).mpr hcell.2).1

/-- With memory for the record the handler writes through a null pointer. -/
theorem rx_error_null_write : ∃ e, heardNeighbour = some e ∧
    validProtocolPdu (.error partingError) = true ∧
    ¬∃ done, rxError (.plenty 200) (partingTask 200) partingError e = some done ∧
      ErrorHandled (.plenty 200) 0x0a000002 partingError.dests e.routes done.engine.routes := by
  have hheard : heardNeighbour.any (fun e =>
      (rxError (.plenty 200) (partingTask 200) partingError e).isNone) = true := by
    decide +kernel
  obtain ⟨e, he, hnone⟩ := (Option.any_eq_true _ _).mp hheard
  refine ⟨e, he, rfl, ?_⟩
  rintro ⟨done, hdone, -⟩
  rw [hdone] at hnone
  cases hnone

end Maodv
end WirelessMesh
