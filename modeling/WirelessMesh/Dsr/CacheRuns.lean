import WirelessMesh.Dsr.CacheSpec
import WirelessMesh.Lib.Runs

/-!
# The route cache over a whole run

Any sequence of calls of the cache's functions, at times that do not go back, does what the same
calls do to an aging cache of twenty routes. `add_reverse_route` looks for a route the other
way round than it adds it, so that every copy of a route request that comes over two relays
or more puts the same routes into the cache once more, and a few copies push out all others.
`add_forward_route` takes the relays of a route to a node in the middle of a list from the
wrong place in it, so that after a reply over three relays the route to the third one starts at
the second.
-/

namespace WirelessMesh.Dsr

/-- A call of one of the functions that the rest of the module uses. -/
inductive CacheCall
  | addReverseRoute (daddr : Addr) (addr : List Addr)
  | addForwardRoute (daddr : Addr) (addr : List Addr) (beyond : ℕ → Addr)
  | lookupRoute (dst : Addr)
  | removeRoute (srchop dsthop : Addr)

namespace CacheCall

variable (ipaddr : Addr) (subnet : Addr → Bool)

/-- The call at the time `now`, with the route that a lookup returns. -/
def exec (now : ℕ) : CacheCall → RtCache → Option (RtCache × Option Route)
  | addReverseRoute daddr addr, c =>
      (learnRoutes now (reverseOffers subnet daddr addr) c).map (·, none)
  | addForwardRoute daddr addr beyond, c =>
      (learnRoutes now (forwardOffers subnet daddr addr beyond) c).map (·, none)
  | lookupRoute dst, c =>
      some ((Dsr.lookupRoute now dst c).1, (Dsr.lookupRoute now dst c).2.map RtEntry.route)
  | removeRoute srchop dsthop, c => some (Dsr.removeRoute now ipaddr srchop dsthop c, none)

/-- What the call does to the routes that are good. -/
inductive Spec (now : ℕ) : CacheCall → Multiset (ℕ × Route) → Option Route →
    Multiset (ℕ × Route) → Prop
  | addReverseRoute {daddr : Addr} {addr : List Addr} {s s' : Multiset (ℕ × Route)}
      (h : AgingCache.LearnAll routeCacheSize now
        ((reverseOffers subnet daddr addr).map Offer.routes) s s') :
      Spec now (.addReverseRoute daddr addr) s none s'
  | addForwardRoute {daddr : Addr} {addr : List Addr} {beyond : ℕ → Addr}
      {s s' : Multiset (ℕ × Route)}
      (h : AgingCache.LearnAll routeCacheSize now
        ((forwardOffers subnet daddr addr beyond).map Offer.routes) s s') :
      Spec now (.addForwardRoute daddr addr beyond) s none s'
  | unknown {dst : Addr} {s : Multiset (ℕ × Route)} (h : ∀ x ∈ s, x.2.1 ≠ dst) :
      Spec now (.lookupRoute dst) s none s
  | found {dst : Addr} {t : ℕ} {path : List Addr} {rest : Multiset (ℕ × Route)}
      (h : ∀ x ∈ rest, x.2.1 = dst →
        path.length ≤ x.2.2.length ∧ (x.2.2.length = path.length → x.1 ≤ t)) :
      Spec now (.lookupRoute dst) ((t, dst, path) ::ₘ rest) (some (dst, path))
        ((now, dst, path) ::ₘ rest)
  | removeRoute {srchop dsthop : Addr} {s s' : Multiset (ℕ × Route)} (hle : s' ≤ s)
      (hnone : ∀ x ∈ s', ¬x.2.Uses ipaddr srchop dsthop)
      (hkept : ∀ x : ℕ × Route, ¬x.2.Uses ipaddr srchop dsthop → x.2.2.getLast? ≠ some srchop →
        s.count x = s'.count x) :
      Spec now (.removeRoute srchop dsthop) s none s'

/-- The addresses of the call are addresses of hosts, and its list has room in an entry. -/
def Fits : CacheCall → Prop
  | addReverseRoute daddr addr => daddr ≠ 0 ∧ (∀ a ∈ addr, a ≠ 0) ∧ addr.length ≤ maxRouteLen
  | addForwardRoute daddr addr _ => daddr ≠ 0 ∧ (∀ a ∈ addr, a ≠ 0) ∧ addr.length ≤ maxRouteLen
  | lookupRoute _ => True
  | removeRoute _ _ => True

end CacheCall

section

variable (ipaddr : Addr) (subnet : Addr → Bool) {call : CacheCall} {c : RtCache}

theorem CacheCall.exec_refines (hc : c.Ok) (hfits : call.Fits) (now : ℕ) :
    ∃ r, call.exec ipaddr subnet now c = some r ∧ r.1.Ok ∧
      call.Spec ipaddr subnet now (c.live now) r.2 (r.1.live now) := by
  cases call with
  | addReverseRoute daddr addr =>
      obtain ⟨hd, haddr, hlen⟩ := hfits
      obtain ⟨c', hc', hok, hall⟩ := learnRoutes_spec hc now (reverseOffers_fits hlen haddr hd)
      exact ⟨(c', none), by rw [exec, hc']; rfl, hok, .addReverseRoute hall⟩
  | addForwardRoute daddr addr beyond =>
      obtain ⟨hd, haddr, hlen⟩ := hfits
      obtain ⟨c', hc', hok, hall⟩ := learnRoutes_spec hc now (forwardOffers_fits hlen haddr hd)
      exact ⟨(c', none), by rw [exec, hc']; rfl, hok, .addForwardRoute hall⟩
  | lookupRoute dst =>
      refine ⟨_, rfl, ?_⟩
      obtain ⟨hok, ⟨hnone, hlive, habsent⟩ |
        ⟨e, t, rest, hsome, hdst, -, -, hbefore, hafter, hbest⟩⟩ := lookupRoute_spec hc now dst
      · refine ⟨hok, ?_⟩
        rw [hnone, hlive]
        exact .unknown habsent
      · refine ⟨hok, ?_⟩
        rw [hsome, hafter]
        rw [hbefore] at hbest ⊢
        have hroute : e.route = (dst, e.path) := by rw [RtEntry.route, hdst]
        rw [Option.map_some, hroute]
        exact .found fun x hx => hbest x (Multiset.mem_cons_of_mem hx)
  | removeRoute srchop dsthop =>
      obtain ⟨hok, hle, hnone, hkept⟩ := removeRoute_spec hc now ipaddr srchop dsthop
      exact ⟨_, rfl, hok, .removeRoute hle hnone hkept⟩

end

/-! ### Runs -/

section

variable (ipaddr : Addr) (subnet : Addr → Bool)

/-- A call at its time; the answers so far stand beside the cache. -/
def CacheCall.step (call : ℕ × CacheCall) (s : RtCache × List (Option Route)) :
    Option (RtCache × List (Option Route)) :=
  (call.2.exec ipaddr subnet call.1 s.1).map fun r => (r.1, s.2 ++ [r.2])

def stillGood (now : ℕ) (s : Multiset (ℕ × Route)) : Multiset (ℕ × Route) :=
  s.filter fun x => now - x.1 < routeCacheTimeout

/-- The calls on the aging cache: at the time of a call, what has timed out is not there. -/
inductive SpecRun : Multiset (ℕ × Route) → List (ℕ × CacheCall) → List (Option Route) →
    Multiset (ℕ × Route) → Prop
  | nil {s : Multiset (ℕ × Route)} : SpecRun s [] [] s
  | cons {s s' s'' : Multiset (ℕ × Route)} {now : ℕ} {call : CacheCall}
      {calls : List (ℕ × CacheCall)} {ans : Option Route} {answers : List (Option Route)}
      (hcall : call.Spec ipaddr subnet now (stillGood now s) ans s')
      (hcalls : SpecRun s' calls answers s'') :
      SpecRun s ((now, call) :: calls) (ans :: answers) s''

end

/-- Time goes on: the routes that are good later are those that are good now and last. -/
theorem stillGood_live {t now : ℕ} (h : t ≤ now) (c : RtCache) :
    stillGood now (c.live t) = c.live now := by
  rw [stillGood, RtCache.live, RtCache.live, liveFrom, liveFrom, Multiset.filter_coe,
    List.filter_map, List.filter_filter]
  congr 2
  apply List.filter_congr
  intro e _
  simp only [RtEntry.live, RtEntry.fresh, Function.comp_apply]
  cases e.used with
  | false => simp
  | true =>
      simp only [Bool.true_and, ← Bool.decide_and, decide_eq_decide]
      omega

theorem finish_refines (ipaddr : Addr) (subnet : Addr → Bool) {calls : List (ℕ × CacheCall)}
    {c : RtCache} {t : ℕ} (before : List (Option Route)) (hc : c.Ok)
    (hfits : ∀ call ∈ calls, call.2.Fits) (hclock : ((t :: calls.map Prod.fst).IsChain (· ≤ ·))) :
    ∃ c' answers, Machine.finish (CacheCall.step ipaddr subnet) calls (c, before) =
        some (c', before ++ answers) ∧ c'.Ok ∧
      SpecRun ipaddr subnet (c.live t) calls answers
        (c'.live ((calls.map Prod.fst).getLastD t)) := by
  induction calls generalizing c t before with
  | nil => exact ⟨c, [], by rw [Machine.finish, List.append_nil], hc, .nil⟩
  | cons call calls ih =>
      obtain ⟨now, call⟩ := call
      obtain ⟨hle, hclock⟩ := List.isChain_cons_cons.mp hclock
      obtain ⟨r, hexec, hok, hspec⟩ := CacheCall.exec_refines ipaddr subnet hc
        (hfits (now, call) List.mem_cons_self) now
      obtain ⟨c', answers, hrun, hok', hspecs⟩ :=
        ih (before ++ [r.2]) hok (fun x hx => hfits x (List.mem_cons_of_mem _ hx)) hclock
      refine ⟨c', r.2 :: answers, ?_, hok', ?_⟩
      · rw [Machine.finish, CacheCall.step, hexec, Option.map_some, Option.bind_some, hrun,
          List.append_assoc]
        rfl
      · rw [List.map_cons, List.getLastD_cons]
        rw [← stillGood_live hle] at hspec
        exact .cons hspec hspecs

/-- Over every run, from the empty cache on, `rt_cache_size` is the number of routes that are
kept, no list is written beyond its entry, and the calls answer as those on the aging cache
do. -/
theorem route_cache_refines (ipaddr : Addr) (subnet : Addr → Bool) (calls : List (ℕ × CacheCall))
    (hfits : ∀ call ∈ calls, call.2.Fits) (hclock : (calls.map Prod.fst).IsChain (· ≤ ·)) :
    ∃ c answers, Machine.finish (CacheCall.step ipaddr subnet) calls (RtCache.init, []) =
        some (c, answers) ∧
      c.size = c.entries.countP RtEntry.used ∧ c.entries.length = routeCacheSize ∧
      SpecRun ipaddr subnet 0 calls answers (c.live ((calls.map Prod.fst).getLastD 0)) := by
  have hchain : (0 :: calls.map Prod.fst).IsChain (· ≤ ·) := by
    cases calls with
    | nil => exact .singleton 0
    | cons call calls => exact .cons_cons (Nat.zero_le _) hclock
  obtain ⟨c, answers, hrun, hok, hspec⟩ :=
    finish_refines ipaddr subnet [] RtCache.init_ok hfits hchain
  exact ⟨c, answers, hrun, hok.size, hok.length, hspec⟩

theorem route_cache_refines_lookup :
    ∃ c answers, Machine.finish (CacheCall.step 7 fun _ => true)
        [(1, .addReverseRoute 1 [2, 3]), (5, .lookupRoute 1), (9, .removeRoute 3 2)]
        (RtCache.init, []) = some (c, answers) ∧
      c.size = c.entries.countP RtEntry.used ∧ c.entries.length = routeCacheSize ∧
      SpecRun 7 (fun _ => true) 0
        [(1, .addReverseRoute 1 [2, 3]), (5, .lookupRoute 1), (9, .removeRoute 3 2)] answers
        (c.live 9) :=
  route_cache_refines 7 (fun _ => true) _
    (by simp [CacheCall.Fits, maxRouteLen]) (by decide)

/-! ### Copies of a route request -/

section Copies

open AgingCache

variable {subnet : Addr → Bool} {saddr : Addr} {addr : List Addr} {t₀ : ℕ}

/-- The node gets a copy of a route request that came from `saddr` over the relays `addr`, at
each of the times. -/
def requestCopies (saddr : Addr) (addr : List Addr) (times : List ℕ) : List (ℕ × CacheCall) :=
  times.map fun now => (now, .addReverseRoute saddr addr)

/-- After `n` copies: the entries younger than `t₀` are routes to nodes the request went
through, there are as many as copies, and none goes over the relays in the order of the
request. -/
structure Flooded (saddr : Addr) (addr : List Addr) (t₀ n : ℕ) (s : Multiset (ℕ × Route)) :
    Prop where
  card : s.card ≤ routeCacheSize
  young : min routeCacheSize n ≤ young t₀ s
  node : ∀ x ∈ s, t₀ < x.1 → x.2.1 ∈ saddr :: addr
  absent : ∀ x ∈ s, x.2 ≠ (saddr, addr)

theorem mem_reverseOffers {o : Offer} (h : o ∈ reverseOffers subnet saddr addr) :
    o.1 ∈ saddr :: addr ∧
      (o = (saddr, addr, addr.reverse) ∨ o.2.2.length < addr.length) := by
  rcases List.mem_append.mp h with h | h
  · obtain ⟨i, hi, rfl⟩ := List.mem_map.mp h
    have hi := List.mem_range.mp hi
    constructor
    · rw [List.getD_eq_getElem _ _ (by omega)]
      exact List.mem_cons_of_mem _ (List.getElem_mem _)
    · right
      rw [List.length_reverse, List.length_drop]
      omega
  · split_ifs at h
    · obtain rfl := List.mem_singleton.mp h
      exact ⟨List.mem_cons_self, .inl rfl⟩
    · exact absurd h List.not_mem_nil

theorem Flooded.stillGood {n now : ℕ} {s : Multiset (ℕ × Route)} (h : Flooded saddr addr t₀ n s)
    (hnow : now < t₀ + routeCacheTimeout) : Flooded saddr addr t₀ n (stillGood now s) where
  card := (Multiset.card_le_card (Multiset.filter_le ..)).trans h.card
  young := by
    apply h.young.trans
    rw [AgingCache.young, AgingCache.young, Dsr.stillGood, Multiset.countP_filter]
    apply Nat.le_of_eq
    apply Multiset.countP_congr rfl
    intro x _
    apply propext
    simp only [routeCacheTimeout] at hnow ⊢
    omega
  node := fun x hx => h.node x (Multiset.mem_of_mem_filter hx)
  absent := fun x hx => h.absent x (Multiset.mem_of_mem_filter hx)

theorem absent_of_learnAll {now : ℕ} {s s' : Multiset (ℕ × Route)} {offers : List Offer}
    (haddr : addr.reverse ≠ addr) (hoffers : offers ⊆ reverseOffers subnet saddr addr)
    (hall : LearnAll routeCacheSize now (offers.map Offer.routes) s s')
    (hs : ∀ x ∈ s, x.2 ≠ (saddr, addr)) : ∀ x ∈ s', x.2 ≠ (saddr, addr) := by
  intro x hx heq
  rcases hall.mem_cases hx with hx | ⟨-, -, ⟨kv, hkv, hval⟩ | ⟨t, ht⟩⟩
  · exact hs x hx heq
  · obtain ⟨o, ho, rfl⟩ := List.mem_map.mp hkv
    have hpath : o.2.2 = addr := (Prod.ext_iff.mp (hval.symm.trans heq)).2
    rcases (mem_reverseOffers (hoffers ho)).2 with rfl | hlt
    · exact haddr hpath
    · rw [hpath] at hlt
      exact Nat.lt_irrefl _ hlt
  · exact hs _ ht heq

theorem Flooded.copy {n now : ℕ} {s s' : Multiset (ℕ × Route)} (h : Flooded saddr addr t₀ n s)
    (hsubnet : subnet saddr = true) (haddr : addr.reverse ≠ addr) (hnow : t₀ < now)
    (hall : LearnAll routeCacheSize now
      ((reverseOffers subnet saddr addr).map Offer.routes) s s') :
    Flooded saddr addr t₀ (n + 1) s' := by
  refine ⟨hall.card_le h.card, ?_, ?_,
    absent_of_learnAll haddr (List.Subset.refl _) hall h.absent⟩
  · -- the route to the source of the request is added, whatever became of those to its relays
    have hsub := List.subset_append_left ((List.range addr.length).map fun i =>
      (addr.getD (addr.length - i - 1) 0, addr.drop (addr.length - i),
        (addr.drop (addr.length - i)).reverse))
      (if subnet saddr then [(saddr, addr, addr.reverse)] else [])
    rw [reverseOffers, List.map_append, learnAll_append] at hall
    obtain ⟨s₁, hrelays, hlast⟩ := hall
    have habsent := absent_of_learnAll haddr hsub hrelays h.absent
    rw [if_pos hsubnet] at hlast
    obtain ⟨s₂, ⟨t, rest, rfl, -⟩ | ⟨-, hput⟩, rfl⟩ := hlast
    · exact absurd rfl (habsent _ (Multiset.mem_cons_self ..))
    · have hle := hput.le_young hnow
      have hmono := hrelays.le_young hnow h.card
      have hyoung := h.young
      omega
  · intro x hx hyoung
    rcases hall.mem_cases hx with hx | ⟨-, ⟨kv, hkv, hval⟩, -⟩
    · exact h.node x hx hyoung
    · obtain ⟨o, ho, rfl⟩ := List.mem_map.mp hkv
      have hdst : x.2.1 = o.1 := by
        rcases hval with hval | hval <;> rw [hval] <;> rfl
      rw [hdst]
      exact (mem_reverseOffers ho).1

theorem Flooded.copies {ipaddr : Addr} {n : ℕ} {s s' : Multiset (ℕ × Route)} {times : List ℕ}
    {answers : List (Option Route)} (h : Flooded saddr addr t₀ n s)
    (hsubnet : subnet saddr = true) (haddr : addr.reverse ≠ addr)
    (htimes : ∀ now ∈ times, t₀ < now ∧ now < t₀ + routeCacheTimeout)
    (hrun : SpecRun ipaddr subnet s (requestCopies saddr addr times) answers s') :
    Flooded saddr addr t₀ (n + times.length) s' := by
  induction times generalizing n s answers with
  | nil =>
      cases hrun
      exact h
  | cons now times ih =>
      obtain ⟨hafter, hbefore⟩ := htimes now List.mem_cons_self
      cases hrun with
      | cons hcall hcalls =>
          cases hcall with
          | addReverseRoute hall =>
              have hcopy := (h.stillGood hbefore).copy hsubnet haddr hafter hall
              have hrest := ih hcopy (fun x hx => htimes x (List.mem_cons_of_mem now hx)) hcalls
              rwa [Nat.add_assoc, Nat.add_comm 1] at hrest

/-- Twenty copies of one route request within the time a route lasts, over relays that are not
the same both ways, push every other route out of the cache. -/
theorem request_copies_flush_cache {ipaddr : Addr} {c : RtCache} {times : List ℕ} (t₀ : ℕ)
    (hc : c.Ok) (hsubnet : subnet saddr = true) (hhosts : ∀ a ∈ saddr :: addr, a ≠ 0)
    (hlen : addr.length ≤ maxRouteLen) (haddr : addr.reverse ≠ addr)
    (hold : ∀ e ∈ c.entries, e.time ≤ t₀ ∧ e.route ≠ (saddr, addr))
    (htimes : ∀ now ∈ times, t₀ < now ∧ now < t₀ + routeCacheTimeout)
    (hclock : times.IsChain (· ≤ ·)) (hcopies : routeCacheSize ≤ times.length) :
    ∃ c' answers, Machine.finish (CacheCall.step ipaddr subnet) (requestCopies saddr addr times)
        (c, []) = some (c', answers) ∧
      (c'.live (times.getLastD t₀)).card = routeCacheSize ∧
      ∀ x ∈ c'.live (times.getLastD t₀), x.2.1 ∈ saddr :: addr := by
  have htimes' : (requestCopies saddr addr times).map Prod.fst = times := by
    rw [requestCopies, List.map_map]
    exact List.map_id times
  have hchain : (t₀ :: times).IsChain (· ≤ ·) := by
    cases times with
    | nil => exact .singleton t₀
    | cons now times => exact .cons_cons (htimes now List.mem_cons_self).1.le hclock
  have hfits : ∀ call ∈ requestCopies saddr addr times, call.2.Fits := by
    intro call hcall
    obtain ⟨now, -, rfl⟩ := List.mem_map.mp hcall
    exact ⟨hhosts saddr List.mem_cons_self, fun a ha => hhosts a (List.mem_cons_of_mem _ ha), hlen⟩
  obtain ⟨c', answers, hrun, -, hspec⟩ :=
    finish_refines ipaddr subnet [] hc hfits (htimes'.symm ▸ hchain)
  rw [htimes'] at hspec
  have hstart : Flooded saddr addr t₀ 0 (c.live t₀) := by
    refine ⟨?_, Nat.zero_le _, ?_, ?_⟩
    · rw [RtCache.live, card_liveFrom, ← hc.length]
      exact List.countP_le_length
    · intro x hx hyoung
      obtain ⟨e, he, -, rfl⟩ := mem_liveFrom.mp hx
      exact absurd hyoung (Nat.not_lt.mpr (hold e he).1)
    · intro x hx
      obtain ⟨e, he, -, rfl⟩ := mem_liveFrom.mp hx
      exact (hold e he).2
  have hend := hstart.copies hsubnet haddr htimes hspec
  -- as many are young as there are entries
  have hyoung : young t₀ (c'.live (times.getLastD t₀)) = (c'.live (times.getLastD t₀)).card := by
    have hle : young t₀ (c'.live (times.getLastD t₀)) ≤ _ := Multiset.countP_le_card ..
    have := hend.card
    have := hend.young
    omega
  refine ⟨c', answers, hrun, ?_, ?_⟩
  · have := hend.card
    have := hend.young
    omega
  · intro x hx
    exact hend.node x hx (Multiset.countP_eq_card.mp hyoung x hx)

def neighbourCache : RtCache where
  entries := ⟨0, 0, List.replicate maxRouteLen 0, 9⟩ :: RtCache.init.entries.tail
  size := 1

theorem neighbourCache_ok : neighbourCache.Ok where
  length := by decide
  size := by decide
  room := by decide

theorem request_copies_flush_cache_neighbourCache :
    (0, 9, []) ∈ neighbourCache.live 0 ∧
      ∃ c' answers, Machine.finish (CacheCall.step 7 fun _ => true)
          (requestCopies 1 [2, 3] (List.range' 1 20)) (neighbourCache, []) = some (c', answers) ∧
        (c'.live 20).card = routeCacheSize ∧ ∀ x ∈ c'.live 20, x.2.1 ∈ [1, 2, 3] :=
  ⟨by decide, request_copies_flush_cache 0 neighbourCache_ok (by decide) (by simp) (by decide)
    (by decide) (by decide) (by decide) (by decide) (by decide)⟩

end Copies

/-! ### A route reply over three relays -/

section Reply

open AgingCache

variable {subnet : Addr → Bool} {daddr r₁ r₂ r₃ : Addr} {rest : List Addr} {beyond : ℕ → Addr}

/-- What `add_forward_route` goes through: the third route should be over `r₁` and `r₂`. -/
theorem forwardOffers_three (subnet : Addr → Bool) (daddr r₁ r₂ r₃ : Addr) (rest : List Addr)
    (beyond : ℕ → Addr) :
    ∃ tail, forwardOffers subnet daddr (r₁ :: r₂ :: r₃ :: rest) beyond =
        (r₁, [], []) :: (r₂, [r₁], [r₁]) :: (r₃, [r₂, r₃], [r₂, r₃]) :: tail ∧
      (∀ o ∈ tail, o.1 ∈ daddr :: rest) ∧ tail.length ≤ rest.length + 1 := by
  let offer (i : ℕ) : Offer := ((r₁ :: r₂ :: r₃ :: rest).getD i 0,
    wordsAt (r₁ :: r₂ :: r₃ :: rest) beyond (i - 1) i,
    wordsAt (r₁ :: r₂ :: r₃ :: rest) beyond (i - 1) i)
  let last : List Offer :=
    if subnet daddr then [(daddr, r₁ :: r₂ :: r₃ :: rest, r₁ :: r₂ :: r₃ :: rest)] else []
  refine ⟨(List.range rest.length).map (fun i => offer (i + 3)) ++ last, ?_, ?_, ?_⟩
  · have hrange : List.range (rest.length + 3) =
        0 :: 1 :: 2 :: (List.range rest.length).map (· + 3) := by
      simp only [List.range_succ_eq_map, List.map_cons, List.map_map]
      rfl
    rw [forwardOffers, show (r₁ :: r₂ :: r₃ :: rest).length = rest.length + 3 from rfl, hrange,
      List.map_cons, List.map_cons, List.map_cons, List.map_map]
    rfl
  · intro o ho
    rcases List.mem_append.mp ho with ho | ho
    · obtain ⟨i, hi, rfl⟩ := List.mem_map.mp ho
      have hi : i < rest.length := List.mem_range.mp hi
      have hdst : (offer (i + 3)).1 = rest[i] := by
        simp only [offer, List.getD_cons_succ, List.getD_eq_getElem _ _ hi]
      rw [hdst]
      exact List.mem_cons_of_mem _ (List.getElem_mem hi)
    · simp only [last] at ho
      split_ifs at ho
      · rw [List.mem_singleton.mp ho]
        exact List.mem_cons_self
      · exact absurd ho List.not_mem_nil
  · have hlast : last.length ≤ 1 := by
      simp only [last]
      split_ifs <;> simp
    rw [List.length_append, List.length_map, List.length_range]
    omega

/-- After a reply, the entries to its third relay that are younger than the reply are the wrong
route, and it is there. -/
theorem learnAll_three {t₀ now : ℕ} {s s' : Multiset (ℕ × Route)} (hnow : t₀ < now)
    (hnodup : (daddr :: r₁ :: r₂ :: r₃ :: rest).Nodup) (hlen : rest.length + 3 ≤ maxRouteLen)
    (hold : ∀ x ∈ s, x.1 ≤ t₀)
    (hall : LearnAll routeCacheSize now
      ((forwardOffers subnet daddr (r₁ :: r₂ :: r₃ :: rest) beyond).map Offer.routes) s s') :
    (∃ t, t₀ < t ∧ (t, r₃, [r₂, r₃]) ∈ s') ∧
      ∀ x ∈ s', x.2.1 = r₃ → x ∈ s ∨ x.2 = (r₃, [r₂, r₃]) := by
  obtain ⟨tail, hoffers, htail, hlength⟩ :=
    forwardOffers_three subnet daddr r₁ r₂ r₃ rest beyond
  rw [hoffers] at hall
  simp only [List.nodup_cons, List.mem_cons, not_or] at hnodup
  obtain ⟨⟨-, -, hd₃, -⟩, ⟨-, h₁₃, -⟩, ⟨h₂₃, -⟩, h₃, -⟩ := hnodup
  constructor
  · obtain ⟨s₁, hlearn₁, s₂, hlearn₂, s₃, hlearn₃, hrest⟩ := hall
    have hzero : young t₀ s = 0 :=
      Multiset.countP_eq_zero.mpr fun x hx => Nat.not_lt.mpr (hold x hx)
    have hy₁ : young t₀ s₁ ≤ young t₀ s + 1 := hlearn₁.young_le
    have hy₂ : young t₀ s₂ ≤ young t₀ s₁ + 1 := hlearn₂.young_le
    have hy₃ : young t₀ s₃ ≤ young t₀ s₂ + 1 := hlearn₃.young_le
    apply hrest.young_kept hnow _ ⟨now, hnow, hlearn₃.mem⟩
    simp only [List.length_map, maxRouteLen, routeCacheSize] at hlen ⊢
    omega
  · intro x hx hdst
    rcases hall.mem_cases hx with hx | ⟨-, ⟨kv, hkv, hval⟩, -⟩
    · exact .inl hx
    · right
      obtain ⟨o, ho, rfl⟩ := List.mem_map.mp hkv
      have ho₁ : o.1 = r₃ := by
        rcases hval with hval | hval <;> rw [hval] at hdst <;> exact hdst
      rcases List.mem_cons.mp ho with rfl | ho
      · exact absurd ho₁ h₁₃
      rcases List.mem_cons.mp ho with rfl | ho
      · exact absurd ho₁ h₂₃
      rcases List.mem_cons.mp ho with rfl | ho
      · rcases hval with hval | hval <;> exact hval
      · rcases List.mem_cons.mp (htail o ho) with hdaddr | hmem
        · exact absurd (hdaddr.symm.trans ho₁) hd₃
        · exact absurd (ho₁ ▸ hmem) h₃

theorem lookup_of_misled {ipaddr : Addr} {t₀ later : ℕ} {s s' s'' : Multiset (ℕ × Route)}
    {ans : Option Route} (hlasts : later < t₀ + routeCacheTimeout)
    (hold : ∀ x ∈ s, x.1 ≤ t₀ ∧ (x.2.1 = r₃ → 2 ≤ x.2.2.length))
    (hwrong : ∃ t, t₀ < t ∧ (t, r₃, [r₂, r₃]) ∈ s')
    (honly : ∀ x ∈ s', x.2.1 = r₃ → x ∈ s ∨ x.2 = (r₃, [r₂, r₃]))
    (hspec : CacheCall.Spec ipaddr subnet later (.lookupRoute r₃) (stillGood later s') ans s'') :
    ans = some (r₃, [r₂, r₃]) := by
  obtain ⟨t, ht, hmem⟩ := hwrong
  have hgood : (t, r₃, [r₂, r₃]) ∈ stillGood later s' :=
    Multiset.mem_filter.mpr ⟨hmem, by simp only [routeCacheTimeout] at hlasts ⊢; omega⟩
  generalize hg : stillGood later s' = g at hspec
  rw [hg] at hgood
  cases hspec with
  | unknown habsent => exact absurd rfl (habsent _ hgood)
  | @found _ t' path rest hbest =>
      have hfound : (t', r₃, path) ∈ s' :=
        Multiset.mem_of_mem_filter (hg ▸ Multiset.mem_cons_self ..)
      rcases honly _ hfound rfl with hs | heq
      · -- an old entry is no shorter and not as young
        obtain ⟨hle, hlength⟩ := hold _ hs
        have hlength := hlength rfl
        rcases Multiset.mem_cons.mp hgood with heq | hrest
        · cases heq
          exact absurd ht (Nat.not_lt.mpr hle)
        · obtain ⟨hshort, hyoung⟩ := hbest _ hrest rfl
          have hsame : [r₂, r₃].length = path.length := Nat.le_antisymm hlength hshort
          exact absurd (hyoung hsame) (by dsimp only at hle; omega)
      · rw [show path = [r₂, r₃] from (Prod.ext_iff.mp heq).2]

/-- A reply that lists three relays or more makes the node send what it has for the third one to
the second one first, unless it knew a way over at most one relay. -/
theorem reply_misleads {ipaddr : Addr} {c : RtCache} {now later : ℕ} (t₀ : ℕ) (hc : c.Ok)
    (hnow : t₀ < now) (hlater : now ≤ later) (hlasts : later < t₀ + routeCacheTimeout)
    (hhosts : ∀ a ∈ daddr :: r₁ :: r₂ :: r₃ :: rest, a ≠ 0)
    (hnodup : (daddr :: r₁ :: r₂ :: r₃ :: rest).Nodup) (hlen : rest.length + 3 ≤ maxRouteLen)
    (hold : ∀ e ∈ c.entries, e.time ≤ t₀ ∧ (e.dst = r₃ → 2 ≤ e.path.length)) :
    ∃ c', Machine.finish (CacheCall.step ipaddr subnet)
        [(now, .addForwardRoute daddr (r₁ :: r₂ :: r₃ :: rest) beyond), (later, .lookupRoute r₃)]
        (c, []) = some (c', [none, some (r₃, [r₂, r₃])]) := by
  have hfits : ∀ call ∈ [(now, CacheCall.addForwardRoute daddr (r₁ :: r₂ :: r₃ :: rest) beyond),
      (later, .lookupRoute r₃)], call.2.Fits := by
    intro call hcall
    rcases List.mem_cons.mp hcall with rfl | hcall
    · exact ⟨hhosts daddr List.mem_cons_self, fun a ha => hhosts a (List.mem_cons_of_mem _ ha),
        hlen⟩
    · rw [List.mem_singleton.mp hcall]
      trivial
  obtain ⟨c', answers, hrun, -, hspec⟩ := finish_refines (t := t₀) ipaddr subnet [] hc hfits
    (.cons_cons hnow.le (.cons_cons hlater (.singleton _)))
  have hlive : ∀ x ∈ stillGood now (c.live t₀),
      x.1 ≤ t₀ ∧ (x.2.1 = r₃ → 2 ≤ x.2.2.length) := by
    intro x hx
    obtain ⟨e, he, -, rfl⟩ := mem_liveFrom.mp (Multiset.mem_of_mem_filter hx)
    exact hold e he
  cases hspec with
  | cons hreply hspec =>
      cases hreply with
      | addForwardRoute hall =>
          obtain ⟨hwrong, honly⟩ :=
            learnAll_three hnow hnodup hlen (fun x hx => (hlive x hx).1) hall
          cases hspec with
          | cons hlookup hspec =>
              cases hspec
              rw [lookup_of_misled hlasts hlive hwrong honly hlookup] at hrun
              exact ⟨c', hrun⟩

theorem reply_misleads_neighbourCache :
    ∃ c', Machine.finish (CacheCall.step 7 fun _ => true)
        [(1, .addForwardRoute 5 [9, 2, 3] fun _ => 0), (2, .lookupRoute 3)] (neighbourCache, []) =
          some (c', [none, some (3, [2, 3])]) :=
  reply_misleads 0 neighbourCache_ok (by decide) (by decide) (by decide) (by simp) (by decide)
    (by decide) (by decide)

end Reply

end WirelessMesh.Dsr
