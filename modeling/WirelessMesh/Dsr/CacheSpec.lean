import Mathlib.Data.List.GetD
import Mathlib.Data.Multiset.Filter
import Mathlib.Tactic.Common
import WirelessMesh.Dsr.Cache
import WirelessMesh.Lib.AgingCache

/-!
# What the functions of the route cache do

The routes that have not timed out form a cache whose entries age. Each function is specified by
what it does to them; the ones that have timed out, which some of the functions leave in
their slots and some take out, do not show.
-/

namespace WirelessMesh.Dsr

abbrev Route := Addr × List Addr

def RtEntry.route (e : RtEntry) : Route :=
  (e.dst, e.path)

/-- The routes of a list of entries that are good at `now`, with their times. -/
def liveFrom (now : ℕ) (es : List RtEntry) : Multiset (ℕ × Route) :=
  ((es.filter (RtEntry.live now)).map fun e => (e.time, e.route) : List _)

def RtCache.live (now : ℕ) (c : RtCache) : Multiset (ℕ × Route) :=
  liveFrom now c.entries

structure RtCache.Ok (c : RtCache) : Prop where
  length : c.entries.length = routeCacheSize
  size : c.size = c.entries.countP RtEntry.used
  room : ∀ e ∈ c.entries, e.addr.length = maxRouteLen ∧ e.segsLeft ≤ maxRouteLen

theorem RtCache.init_ok : RtCache.init.Ok where
  length := by decide
  size := by decide
  room := by decide

section Entries

variable {now : ℕ} {e : RtEntry} {es : List RtEntry}

@[simp] theorem RtEntry.clean_used (e : RtEntry) : e.clean.used = false := by
  simp [RtEntry.used, RtEntry.clean]

@[simp] theorem liveFrom_nil : liveFrom now [] = 0 := rfl

theorem liveFrom_cons (e : RtEntry) (es : List RtEntry) :
    liveFrom now (e :: es) =
      if e.live now then (e.time, e.route) ::ₘ liveFrom now es else liveFrom now es := by
  rw [liveFrom, List.filter_cons]
  split <;> rfl

theorem liveFrom_perm {es' : List RtEntry} (h : es.Perm es') :
    liveFrom now es = liveFrom now es' :=
  Multiset.coe_eq_coe.mpr ((h.filter _).map _)

theorem liveFrom_le {es' : List RtEntry} (h : es.Sublist es') :
    liveFrom now es ≤ liveFrom now es' :=
  Multiset.coe_le.mpr ((h.filter _).map _).subperm

theorem liveFrom_append (es es' : List RtEntry) :
    liveFrom now (es ++ es') = liveFrom now es + liveFrom now es' := by
  rw [liveFrom, List.filter_append, List.map_append]
  rfl

theorem mem_liveFrom {x : ℕ × Route} :
    x ∈ liveFrom now es ↔ ∃ e ∈ es, e.live now ∧ (e.time, e.route) = x := by
  simp [liveFrom, and_assoc]

theorem card_liveFrom (es : List RtEntry) :
    (liveFrom now es).card = es.countP (RtEntry.live now) := by
  rw [liveFrom, Multiset.coe_card, List.length_map, List.countP_eq_length_filter]

theorem sameRoute_iff {daddr : Addr} {path : List Addr} (hroom : e.segsLeft ≤ e.addr.length) :
    sameRoute daddr path e ↔ e.route = (daddr, path) := by
  rw [sameRoute, RtEntry.route, RtEntry.path, Prod.mk.injEq, Bool.and_eq_true, Bool.and_eq_true,
    beq_iff_eq, beq_iff_eq, beq_iff_eq, and_assoc]
  apply and_congr_right
  intro _
  constructor
  · rintro ⟨hlen, haddr⟩
    rw [hlen, haddr]
  · intro hpath
    have hlen : e.segsLeft = path.length := by
      rw [← hpath, List.length_take, Nat.min_eq_left hroom]
    exact ⟨hlen, by rw [← hlen, hpath]⟩

theorem RtEntry.live_eq_false_of_not_used (h : e.used = false) : e.live now = false := by
  rw [RtEntry.live, h, Bool.false_and]

theorem RtEntry.live_stamp (e : RtEntry) : { e with time := now }.live now = e.used := by
  simp [RtEntry.live, RtEntry.fresh, RtEntry.used, routeCacheTimeout]

variable {p : RtEntry → Bool}

theorem RtEntry.clearIf_used (e : RtEntry) : (e.clearIf p).used = (e.used && !p e) := by
  rw [RtEntry.clearIf]
  split_ifs with h
  · simp_all
  · cases hu : e.used <;> simp_all

theorem RtEntry.clearIf_live (e : RtEntry) : (e.clearIf p).live now = (e.live now && !p e) := by
  rw [RtEntry.live, RtEntry.clearIf_used, RtEntry.live, RtEntry.clearIf]
  split_ifs with h
  · simp_all
  · cases p e <;> simp

theorem RtEntry.clearIf_of_used (h : (e.clearIf p).used) : e.clearIf p = e := by
  rw [RtEntry.clearIf_used] at h
  rw [RtEntry.clearIf, if_neg]
  simp_all

theorem count_clearIf (es : List RtEntry) :
    (es.map (RtEntry.clearIf p)).countP RtEntry.used + (es.countP fun e => e.used && p e) =
      es.countP RtEntry.used := by
  induction es with
  | nil => rfl
  | cons e es ih =>
      rw [List.map_cons, List.countP_cons, List.countP_cons, List.countP_cons,
        RtEntry.clearIf_used, ← ih]
      cases e.used <;> cases p e <;> simp <;> omega

theorem liveFrom_clearIf (es : List RtEntry) :
    liveFrom now (es.map (RtEntry.clearIf p)) = liveFrom now (es.filter fun e => !p e) := by
  induction es with
  | nil => rfl
  | cons e es ih =>
      rw [List.map_cons, liveFrom_cons, ih, RtEntry.clearIf_live]
      cases hp : p e with
      | false =>
          have hsame : e.clearIf p = e := by simp [RtEntry.clearIf, hp]
          rw [List.filter_cons_of_pos (by simp [hp]), liveFrom_cons, hsame]
          simp
      | true =>
          rw [List.filter_cons_of_neg (by simp [hp])]
          simp

theorem liveFrom_expire (es : List RtEntry) :
    liveFrom now (es.map (RtEntry.clearIf fun e => !e.fresh now)) = liveFrom now es := by
  rw [liveFrom_clearIf, liveFrom, liveFrom, List.filter_filter]
  congr 2
  apply List.filter_congr
  intro e _
  rw [RtEntry.live]
  cases e.used <;> cases e.fresh now <;> rfl

end Entries

/-! ### `have_route` -/

section HaveRoute

variable {now : ℕ} {daddr : Addr} {path : List Addr}

/-- The loop stops at the first good entry with the route, and takes out what has timed out
before it. -/
theorem haveRouteFrom_cases (now : ℕ) (daddr : Addr) (path : List Addr) (es : List RtEntry) :
    (∃ pre e post, es = pre ++ e :: post ∧ e.live now ∧ sameRoute daddr path e ∧
      haveRouteFrom now daddr path es =
        (pre.map (RtEntry.clearIf fun e => !e.fresh now) ++ { e with time := now } :: post,
          pre.countP (fun e => e.used && !e.fresh now), true)) ∨
    (∀ e ∈ es, e.live now → ¬sameRoute daddr path e) ∧
      haveRouteFrom now daddr path es =
        (es.map (RtEntry.clearIf fun e => !e.fresh now),
          es.countP (fun e => e.used && !e.fresh now), false) := by
  induction es with
  | nil => exact .inr ⟨by simp, rfl⟩
  | cons e es ih =>
      rw [haveRouteFrom]
      by_cases hhit : e.live now ∧ sameRoute daddr path e
      · obtain ⟨hused, hfresh⟩ := Bool.and_eq_true_iff.mp hhit.1
        refine .inl ⟨[], e, es, rfl, hhit.1, hhit.2, ?_⟩
        simp [hused, hfresh, hhit.2]
      · rcases ih with ⟨pre, e', post, rfl, hlive, hsame, hr⟩ | ⟨hnone, hr⟩
        · refine .inl ⟨e :: pre, e', post, rfl, hlive, hsame, ?_⟩
          rw [hr]
          simp only [RtEntry.live, RtEntry.clearIf, List.map_cons, List.countP_cons] at hhit ⊢
          split_ifs <;> simp_all
        · refine .inr ⟨?_, ?_⟩
          · intro x hx hxlive hxsame
            rcases List.mem_cons.mp hx with rfl | hx
            · exact hhit ⟨hxlive, hxsame⟩
            · exact hnone x hx hxlive hxsame
          · rw [hr]
            simp only [RtEntry.live, RtEntry.clearIf, List.map_cons, List.countP_cons] at hhit ⊢
            split_ifs <;> simp_all

variable {c : RtCache}

structure RtEntry.Kept (e e' : RtEntry) : Prop where
  addr : e'.addr = e.addr
  segsLeft : e'.segsLeft = e.segsLeft
  dst : e'.dst = e.dst ∨ e'.dst = 0

theorem RtEntry.kept_stamp (e : RtEntry) (now : ℕ) : e.Kept { e with time := now } :=
  ⟨rfl, rfl, .inl rfl⟩

theorem RtEntry.Kept.refl (e : RtEntry) : e.Kept e :=
  ⟨rfl, rfl, .inl rfl⟩

theorem RtEntry.kept_clearIf (p : RtEntry → Bool) (e : RtEntry) : e.Kept (e.clearIf p) := by
  rw [RtEntry.clearIf]
  split
  · exact ⟨rfl, rfl, .inr rfl⟩
  · exact .refl e

theorem RtCache.Ok.of_entries {c' : RtCache} (hc : c.Ok)
    (hlen : c'.entries.length = c.entries.length)
    (hsize : c'.size = c'.entries.countP RtEntry.used)
    (hroom : ∀ e' ∈ c'.entries, ∃ e ∈ c.entries, e.Kept e') : c'.Ok where
  length := hlen.trans hc.length
  size := hsize
  room := by
    intro e' he'
    obtain ⟨e, he, hkept⟩ := hroom e' he'
    rw [hkept.addr, hkept.segsLeft]
    exact hc.room e he

theorem RtCache.Ok.takeOut (hc : c.Ok) (p : RtEntry → Bool) : (c.takeOut p).Ok := by
  apply hc.of_entries
  · exact List.length_map ..
  · have hcount := count_clearIf (p := p) c.entries
    simp only [RtCache.takeOut, hc.size]
    omega
  · intro e' he'
    obtain ⟨e, he, rfl⟩ := List.mem_map.mp he'
    exact ⟨e, he, e.kept_clearIf p⟩

theorem RtCache.Ok.same_route_iff (hc : c.Ok) {e : RtEntry} (he : e ∈ c.entries) :
    sameRoute daddr path e ↔ e.route = (daddr, path) := by
  apply sameRoute_iff
  rw [(hc.room e he).1]
  exact (hc.room e he).2

theorem haveRouteFrom_kept (now : ℕ) (daddr : Addr) (path : List Addr) (es : List RtEntry) :
    ∀ e' ∈ (haveRouteFrom now daddr path es).1, ∃ e ∈ es, e.Kept e' := by
  intro e' he'
  rcases haveRouteFrom_cases now daddr path es with
    ⟨pre, e, post, rfl, -, -, hr⟩ | ⟨-, hr⟩
  · rw [hr] at he'
    rcases List.mem_append.mp he' with he' | he'
    · obtain ⟨x, hx, rfl⟩ := List.mem_map.mp he'
      exact ⟨x, by simp [hx], x.kept_clearIf _⟩
    · rcases List.mem_cons.mp he' with rfl | he'
      · exact ⟨e, by simp, e.kept_stamp now⟩
      · exact ⟨e', by simp [he'], .refl e'⟩
  · rw [hr] at he'
    obtain ⟨x, hx, rfl⟩ := List.mem_map.mp he'
    exact ⟨x, hx, x.kept_clearIf _⟩

/-- A route that is known gets a new time; otherwise nothing is left that has timed out. -/
theorem haveRoute_spec (hc : c.Ok) (now : ℕ) (daddr : Addr) (path : List Addr) :
    (haveRoute now daddr path c).1.Ok ∧
    ((haveRoute now daddr path c).2 = true ∧
        AgingCache.Touch now (daddr, path) (c.live now) ((haveRoute now daddr path c).1.live now) ∨
      (haveRoute now daddr path c).2 = false ∧ (∀ t, (t, (daddr, path)) ∉ c.live now) ∧
        haveRoute now daddr path c = (c.takeOut fun e => !e.fresh now, false)) := by
  rcases haveRouteFrom_cases now daddr path c.entries with
    ⟨pre, e, post, hes, hlive, hsame, hr⟩ | ⟨hnone, hr⟩
  · have he : e ∈ c.entries := by simp [hes]
    have hroute := (hc.same_route_iff he).mp hsame
    have haddr := haveRouteFrom_kept now daddr path c.entries
    rw [haveRoute, hr]
    rw [hr] at haddr
    constructor
    · apply hc.of_entries _ _ haddr
      · simp [hes]
      · have hcount := count_clearIf (p := fun e => !e.fresh now) pre
        have hused : { e with time := now }.used = e.used := rfl
        rw [hc.size, hes]
        simp only [List.countP_append, List.countP_cons, hused]
        omega
    · refine .inl ⟨rfl, e.time, liveFrom now (pre ++ post), ?_, ?_⟩
      · rw [RtCache.live, hes, liveFrom_perm List.perm_middle, liveFrom_cons, if_pos hlive, hroute]
      · have hstamp : { e with time := now }.live now = true := by
          rw [RtEntry.live_stamp]
          exact (Bool.and_eq_true_iff.mp hlive).1
        rw [RtCache.live, liveFrom_perm List.perm_middle, liveFrom_cons, if_pos hstamp]
        have hrest : liveFrom now (pre.map (RtEntry.clearIf fun e => !e.fresh now) ++ post) =
            liveFrom now (pre ++ post) := by
          rw [liveFrom_append, liveFrom_expire, ← liveFrom_append]
        rw [hrest]
        exact congrArg (fun r => (now, r) ::ₘ _) hroute
  · have hr' : haveRoute now daddr path c = (c.takeOut fun e => !e.fresh now, false) := by
      rw [haveRoute, hr]
      rfl
    rw [hr']
    refine ⟨hc.takeOut _, .inr ⟨rfl, ?_, rfl⟩⟩
    intro t ht
    obtain ⟨e, he, hlive, heq⟩ := mem_liveFrom.mp ht
    exact hnone e he hlive ((hc.same_route_iff he).mpr (Prod.ext_iff.mp heq).2)

end HaveRoute

/-! ### Learning a route -/

section Learn

variable {c : RtCache}

theorem RtEntry.fill_route {now : ℕ} {daddr : Addr} {path : List Addr} (e : RtEntry) :
    (e.fill now daddr path).route = (daddr, path) := by
  simp [RtEntry.route, RtEntry.path, RtEntry.fill]

theorem RtEntry.fill_live {daddr : Addr} (hd : daddr ≠ 0) (now : ℕ) (path : List Addr)
    (e : RtEntry) : (e.fill now daddr path).live now = true := by
  simpa [RtEntry.live, RtEntry.used, RtEntry.fresh, RtEntry.fill, routeCacheTimeout] using hd

theorem RtCache.takeOut_fresh (now : ℕ) :
    ∀ e ∈ (c.takeOut fun e => !e.fresh now).entries, e.live now = e.used := by
  intro e he
  obtain ⟨x, -, rfl⟩ := List.mem_map.mp he
  rw [RtEntry.clearIf_live, RtEntry.clearIf_used, RtEntry.live]
  cases x.used <;> cases x.fresh now <;> rfl

section AddNew

variable (now : ℕ) {daddr : Addr} {path : List Addr}

theorem addNewRoute_over (hc : c.Ok) (hd : daddr ≠ 0) (hpath : path.length ≤ maxRouteLen)
    {e : RtEntry} {rest : List RtEntry} (hperm : c.entries.Perm (e :: rest))
    (hmod : (c.entries.modify c.slot (RtEntry.fill now daddr path)).Perm
      (e.fill now daddr path :: rest))
    (hsize : c.size + (if e.used then 0 else 1) =
      if c.size < routeCacheSize then c.size + 1 else c.size) :
    ∃ c', addNewRoute now daddr path c = some c' ∧ c'.Ok ∧
      c'.live now = (now, daddr, path) ::ₘ liveFrom now rest := by
  have hroom : e.addr.length = maxRouteLen := (hc.room e (hperm.mem_iff.mpr (by simp))).1
  have hused : (e.fill now daddr path).used = true :=
    (Bool.and_eq_true_iff.mp (e.fill_live hd now path)).1
  refine ⟨_, if_pos hpath, ⟨?_, ?_, ?_⟩, ?_⟩
  · exact (List.length_modify ..).trans hc.length
  · rw [← hsize, hmod.countP_eq, hc.size, hperm.countP_eq, List.countP_cons, List.countP_cons,
      if_pos hused]
    cases e.used <;> simp
  · intro e' he'
    rcases List.mem_cons.mp (hmod.mem_iff.mp he') with rfl | he'
    · refine ⟨?_, hpath⟩
      rw [RtEntry.fill, List.length_append, List.length_drop, hroom]
      omega
    · exact hc.room e' (hperm.mem_iff.mpr (List.mem_cons_of_mem e he'))
  · rw [RtCache.live, liveFrom_perm hmod, liveFrom_cons, if_pos (e.fill_live hd now path),
      e.fill_route]
    rfl

theorem addNewRoute_of_free (hc : c.Ok) (hd : daddr ≠ 0) (hpath : path.length ≤ maxRouteLen)
    (hlt : c.entries.countP RtEntry.used < routeCacheSize) :
    ∃ c', addNewRoute now daddr path c = some c' ∧ c'.Ok ∧
      c'.live now = (now, daddr, path) ::ₘ c.live now := by
  have hsize : c.size < routeCacheSize := by
    rw [hc.size]
    exact Int.ofNat_lt.mpr hlt
  obtain ⟨e, he, hfree⟩ := SlotTable.firstFree_spec RtEntry.used (hc.length.symm ▸ hlt)
  obtain ⟨rest, hperm, hmod⟩ := SlotTable.exists_perm_modify he
  have hslot : c.slot = SlotTable.firstFree RtEntry.used c.entries := if_pos hsize
  have hrest : c.live now = liveFrom now rest := by
    rw [RtCache.live, liveFrom_perm hperm, liveFrom_cons, RtEntry.live_eq_false_of_not_used hfree]
    rfl
  rw [hrest]
  exact addNewRoute_over now hc hd hpath hperm (hslot ▸ hmod _) (by simp [hfree, hsize])

theorem addNewRoute_of_full (hc : c.Ok) (hd : daddr ≠ 0) (hpath : path.length ≤ maxRouteLen)
    (hall : ∀ e ∈ c.entries, e.used) :
    ∃ c' e rest, addNewRoute now daddr path c = some c' ∧ c'.Ok ∧ c.entries.Perm (e :: rest) ∧
      (∀ e' ∈ rest, e.time ≤ e'.time) ∧ c'.live now = (now, daddr, path) ::ₘ liveFrom now rest := by
  have hsize : ¬c.size < routeCacheSize := by
    rw [hc.size, List.countP_eq_length.mpr hall, hc.length]
    exact Int.lt_irrefl _
  have hne : c.entries ≠ [] := by
    rw [← List.length_pos_iff, hc.length]
    decide
  obtain ⟨e, he, hold⟩ := SlotTable.oldest_spec RtEntry.used RtEntry.time hne hall
  obtain ⟨rest, hperm, hmod⟩ := SlotTable.exists_perm_modify he
  have hslot : c.slot = SlotTable.oldest RtEntry.used RtEntry.time c.entries := if_neg hsize
  have hmem : e ∈ c.entries := hperm.mem_iff.mpr (by simp)
  obtain ⟨c', hadd, hok, hlive⟩ :=
    addNewRoute_over now hc hd hpath hperm (hslot ▸ hmod _) (by simp [hall e hmem, hsize])
  refine ⟨c', e, rest, hadd, hok, hperm, ?_, hlive⟩
  intro e' he'
  exact hold e' (hperm.mem_iff.mpr (List.mem_cons_of_mem e he'))

/-- With nothing left that has timed out, a new route fills a slot or takes the place of a
route than which no other is older. -/
theorem addNewRoute_spec (hc : c.Ok) (hfresh : ∀ e ∈ c.entries, e.live now = e.used)
    (hd : daddr ≠ 0) (hpath : path.length ≤ maxRouteLen) :
    ∃ c', addNewRoute now daddr path c = some c' ∧ c'.Ok ∧
      AgingCache.Put routeCacheSize now (daddr, path) (c.live now) (c'.live now) := by
  have hcard : (c.live now).card = c.entries.countP RtEntry.used := by
    rw [RtCache.live, card_liveFrom]
    exact List.countP_congr fun e he => by rw [hfresh e he]
  by_cases hlt : c.entries.countP RtEntry.used < routeCacheSize
  · obtain ⟨c', hadd, hok, hlive⟩ := addNewRoute_of_free now hc hd hpath hlt
    exact ⟨c', hadd, hok, hlive ▸ .fill (hcard ▸ hlt)⟩
  · have hall : ∀ e ∈ c.entries, e.used :=
      SlotTable.all_used (hc.length.symm ▸ Nat.not_lt.mp hlt)
    obtain ⟨c', e, rest, hadd, hok, hperm, hold, hlive⟩ :=
      addNewRoute_of_full now hc hd hpath hall
    have hmem : e ∈ c.entries := hperm.mem_iff.mpr (by simp)
    have hlive₀ : c.live now = (e.time, e.route) ::ₘ liveFrom now rest := by
      rw [RtCache.live, liveFrom_perm hperm, liveFrom_cons, if_pos]
      rw [hfresh e hmem, hall e hmem]
    refine ⟨c', hadd, hok, ?_⟩
    rw [hlive, hlive₀]
    apply AgingCache.Put.evict
    · rw [← Multiset.card_cons, ← hlive₀, hcard, List.countP_eq_length.mpr hall, hc.length]
    · intro x hx
      obtain ⟨e', he', -, rfl⟩ := mem_liveFrom.mp hx
      exact hold e' he'

end AddNew

theorem learnRoute_spec (hc : c.Ok) (now : ℕ) {daddr : Addr} (addr : List Addr)
    {path : List Addr} (hd : daddr ≠ 0) (hpath : path.length ≤ maxRouteLen) :
    ∃ r, learnRoute now daddr addr path c = some r ∧ r.1.Ok ∧
      AgingCache.Learn routeCacheSize now (daddr, addr) (daddr, path) (c.live now)
        (r.1.live now) := by
  obtain ⟨hok, ⟨hfound, htouch⟩ | ⟨-, habsent, hhave⟩⟩ := haveRoute_spec hc now daddr addr
  · exact ⟨_, if_pos hfound, hok, .inl htouch⟩
  · obtain ⟨c', hadd, hok', hput⟩ :=
      addNewRoute_spec now (hc.takeOut fun e => !e.fresh now) (RtCache.takeOut_fresh now) hd hpath
    refine ⟨(c', true), ?_, hok', .inr ⟨habsent, ?_⟩⟩
    · rw [learnRoute, hhave, if_neg Bool.false_ne_true, hadd]
      rfl
    · rwa [RtCache.live, RtCache.takeOut, liveFrom_expire] at hput

/-- What an offer is about: the route that is looked for and the one that is added. -/
def Offer.routes (o : Offer) : Route × Route :=
  ((o.1, o.2.1), (o.1, o.2.2))

def Offer.Fits (o : Offer) : Prop :=
  o.1 ≠ 0 ∧ o.2.2.length ≤ maxRouteLen

theorem learnRoutes_spec (hc : c.Ok) (now : ℕ) {offers : List Offer}
    (hfits : ∀ o ∈ offers, o.Fits) :
    ∃ c', learnRoutes now offers c = some c' ∧ c'.Ok ∧
      AgingCache.LearnAll routeCacheSize now (offers.map Offer.routes) (c.live now)
        (c'.live now) := by
  induction offers generalizing c with
  | nil => exact ⟨c, rfl, hc, rfl⟩
  | cons o offers ih =>
      obtain ⟨hd, hpath⟩ := hfits o List.mem_cons_self
      obtain ⟨r, hr, hok, hlearn⟩ := learnRoute_spec hc now o.2.1 hd hpath
      obtain ⟨c', hc', hok', hall⟩ := ih hok fun x hx => hfits x (List.mem_cons_of_mem o hx)
      refine ⟨c', ?_, hok', r.1.live now, hlearn, hall⟩
      rw [learnRoutes, hr]
      exact hc'

theorem reverseOffers_fits {subnet : Addr → Bool} {daddr : Addr} {addr : List Addr}
    (hlen : addr.length ≤ maxRouteLen) (haddr : ∀ a ∈ addr, a ≠ 0) (hd : daddr ≠ 0) :
    ∀ o ∈ reverseOffers subnet daddr addr, o.Fits := by
  intro o ho
  rcases List.mem_append.mp ho with ho | ho
  · obtain ⟨i, hi, rfl⟩ := List.mem_map.mp ho
    have hi := List.mem_range.mp hi
    constructor
    · rw [List.getD_eq_getElem _ _ (by omega)]
      exact haddr _ (List.getElem_mem _)
    · rw [List.length_reverse, List.length_drop]
      omega
  · split_ifs at ho
    · obtain rfl := List.mem_singleton.mp ho
      exact ⟨hd, by rwa [List.length_reverse]⟩
    · exact absurd ho List.not_mem_nil

theorem length_wordsAt (addr : List Addr) (beyond : ℕ → Addr) (i n : ℕ) :
    (wordsAt addr beyond i n).length = n := by
  rw [wordsAt, List.length_map, List.length_range]

theorem forwardOffers_fits {subnet : Addr → Bool} {daddr : Addr} {addr : List Addr}
    {beyond : ℕ → Addr} (hlen : addr.length ≤ maxRouteLen) (haddr : ∀ a ∈ addr, a ≠ 0)
    (hd : daddr ≠ 0) : ∀ o ∈ forwardOffers subnet daddr addr beyond, o.Fits := by
  intro o ho
  rcases List.mem_append.mp ho with ho | ho
  · obtain ⟨i, hi, rfl⟩ := List.mem_map.mp ho
    have hi := List.mem_range.mp hi
    constructor
    · rw [List.getD_eq_getElem _ _ hi]
      exact haddr _ (List.getElem_mem _)
    · rw [length_wordsAt]
      omega
  · split_ifs at ho
    · obtain rfl := List.mem_singleton.mp ho
      exact ⟨hd, hlen⟩
    · exact absurd ho List.not_mem_nil

end Learn

/-! ### `lookup_route` -/

section Lookup

variable {now : ℕ} {dst : Addr} {c : RtCache}

/-- The entry is as good as any good one to `dst`: its relays are the fewest and, among those
with as few, it is the newest. -/
def RtEntry.BestOf (now : ℕ) (dst : Addr) (es : List RtEntry) (r : RtEntry) : Prop :=
  ∀ e ∈ es, e.live now → e.dst = dst →
    r.segsLeft ≤ e.segsLeft ∧ (e.segsLeft = r.segsLeft → e.time ≤ r.time)

theorem RtEntry.not_better_iff {e r : RtEntry} : e.better r = false ↔
    r.segsLeft ≤ e.segsLeft ∧ (e.segsLeft = r.segsLeft → e.time ≤ r.time) := by
  simp [RtEntry.better]

theorem RtEntry.better_iff {e r : RtEntry} : e.better r = true ↔
    e.segsLeft < r.segsLeft ∨ e.segsLeft = r.segsLeft ∧ r.time < e.time := by
  simp [RtEntry.better]

/-- What the loop of `lookup_route` has found after the entries `es`. -/
def Chosen (now : ℕ) (dst : Addr) (es : List RtEntry) : Option (ℕ × RtEntry) → Prop
  | none => ∀ e ∈ es, e.live now → e.dst ≠ dst
  | some (i, r) => es[i]? = some r ∧ r.live now ∧ r.dst = dst ∧ r.BestOf now dst es

theorem Chosen.snoc_of_not {es : List RtEntry} {e : RtEntry} {best : Option (ℕ × RtEntry)}
    (h : Chosen now dst es best)
    (hnot : ¬(e.live now && e.dst == dst && best.all fun b => e.better b.2) = true) :
    Chosen now dst (es ++ [e]) best := by
  cases best with
  | none =>
      intro x hx hlive hdst
      rcases List.mem_append.mp hx with hx | hx
      · exact h x hx hlive hdst
      · obtain rfl := List.mem_singleton.mp hx
        exact hnot (by simp [hlive, hdst])
  | some b =>
      obtain ⟨hk, hlive, hdst, hbest⟩ := h
      refine ⟨?_, hlive, hdst, ?_⟩
      · rw [List.getElem?_append_left (List.getElem?_eq_some_iff.mp hk).1, hk]
      · intro x hx hxlive hxdst
        rcases List.mem_append.mp hx with hx | hx
        · exact hbest x hx hxlive hxdst
        · obtain rfl := List.mem_singleton.mp hx
          exact RtEntry.not_better_iff.mp (by simpa [hxlive, hxdst] using hnot)

theorem Chosen.snoc_of_better {es : List RtEntry} {e : RtEntry} {best : Option (ℕ × RtEntry)}
    (h : Chosen now dst es best)
    (hcand : (e.live now && e.dst == dst && best.all fun b => e.better b.2) = true) :
    Chosen now dst (es ++ [e]) (some (es.length, e)) := by
  rw [Bool.and_eq_true, Bool.and_eq_true, beq_iff_eq] at hcand
  obtain ⟨⟨hlive, hdst⟩, hbetter⟩ := hcand
  refine ⟨by simp, hlive, hdst, ?_⟩
  intro x hx hxlive hxdst
  rcases List.mem_append.mp hx with hx | hx
  · cases best with
    | none => exact absurd hxdst (h x hx hxlive)
    | some b =>
        have hle := h.2.2.2 x hx hxlive hxdst
        have hlt := RtEntry.better_iff.mp hbetter
        omega
  · obtain rfl := List.mem_singleton.mp hx
    exact ⟨Nat.le_refl _, fun _ => Nat.le_refl _⟩

theorem bestFrom_spec (pre es : List RtEntry) {best : Option (ℕ × RtEntry)}
    (h : Chosen now dst pre best) :
    Chosen now dst (pre ++ es) (bestFrom now dst pre.length best es) := by
  induction es generalizing pre best with
  | nil => rwa [List.append_nil]
  | cons e es ih =>
      have hassoc : pre ++ e :: es = pre ++ [e] ++ es := by simp
      have hlen : pre.length + 1 = (pre ++ [e]).length := by simp
      rw [bestFrom, hassoc, hlen]
      split
      · next hcand => exact ih _ (h.snoc_of_better hcand)
      · next hcand => exact ih _ (h.snoc_of_not hcand)

theorem RtCache.Ok.path_length (hc : c.Ok) {e : RtEntry} (he : e ∈ c.entries) :
    e.path.length = e.segsLeft := by
  rw [RtEntry.path, List.length_take, (hc.room e he).1]
  exact Nat.min_eq_left (hc.room e he).2

theorem RtCache.Ok.stamp (hc : c.Ok) {i : ℕ} {e : RtEntry} (hi : c.entries[i]? = some e)
    (hlive : e.live now) :
    RtCache.Ok { c with entries := c.entries.modify i fun e => { e with time := now } } ∧
      ∃ rest, c.live now = (e.time, e.route) ::ₘ rest ∧
        liveFrom now (c.entries.modify i fun e => { e with time := now }) =
          (now, e.route) ::ₘ rest := by
  obtain ⟨rest, hperm, hmod⟩ := SlotTable.exists_perm_modify hi
  have hmod := hmod fun e => { e with time := now }
  have hstamp : { e with time := now }.live now = true := by
    rw [RtEntry.live_stamp]
    exact (Bool.and_eq_true_iff.mp hlive).1
  constructor
  · apply hc.of_entries
    · exact List.length_modify ..
    · rw [hmod.countP_eq, hc.size, hperm.countP_eq, List.countP_cons, List.countP_cons]
      rfl
    · intro e' he'
      rcases List.mem_cons.mp (hmod.mem_iff.mp he') with rfl | he'
      · exact ⟨e, hperm.mem_iff.mpr List.mem_cons_self, e.kept_stamp now⟩
      · exact ⟨e', hperm.mem_iff.mpr (List.mem_cons_of_mem e he'), .refl e'⟩
  · refine ⟨liveFrom now rest, ?_, ?_⟩
    · rw [RtCache.live, liveFrom_perm hperm, liveFrom_cons, if_pos hlive]
    · rw [liveFrom_perm hmod, liveFrom_cons, if_pos hstamp]
      rfl

/-- `lookup_route` finds a route exactly if there is a good one. What it returns has the fewest
relays and, among the routes with as few, it is the newest; it gets a new time. -/
theorem lookupRoute_spec (hc : c.Ok) (now : ℕ) (dst : Addr) :
    (lookupRoute now dst c).1.Ok ∧
    ((lookupRoute now dst c).2 = none ∧ (lookupRoute now dst c).1.live now = c.live now ∧
        (∀ x ∈ c.live now, x.2.1 ≠ dst) ∨
      ∃ e t rest, (lookupRoute now dst c).2 = some e ∧ e.dst = dst ∧
        e.path.length = e.segsLeft ∧ e.segsLeft ≤ maxRouteLen ∧
        c.live now = (t, e.route) ::ₘ rest ∧
        (lookupRoute now dst c).1.live now = (now, e.route) ::ₘ rest ∧
        ∀ x ∈ c.live now, x.2.1 = dst →
          e.path.length ≤ x.2.2.length ∧ (x.2.2.length = e.path.length → x.1 ≤ t)) := by
  have hnil : Chosen now dst [] none := fun e he => absurd he List.not_mem_nil
  have hchosen := bestFrom_spec [] c.entries hnil
  have hok := hc.takeOut fun e => !e.fresh now
  have hlive₀ : (c.takeOut fun e => !e.fresh now).live now = c.live now := liveFrom_expire _
  rw [lookupRoute]
  cases hbest : bestFrom now dst 0 none c.entries with
  | none =>
      rw [List.length_nil, hbest] at hchosen
      refine ⟨hok, .inl ⟨rfl, hlive₀, ?_⟩⟩
      intro x hx
      obtain ⟨e, he, hlive, rfl⟩ := mem_liveFrom.mp hx
      exact hchosen e he hlive
  | some b =>
      obtain ⟨i, e⟩ := b
      rw [List.length_nil, List.nil_append, hbest] at hchosen
      obtain ⟨hi, hlive, hdst, hbestOf⟩ := hchosen
      have hmem : e ∈ c.entries := List.mem_of_getElem? hi
      have hkept : e.clearIf (fun e => !e.fresh now) = e :=
        RtEntry.clearIf_of_used (by rwa [RtEntry.clearIf_used, Bool.not_not])
      have hi' : (c.takeOut fun e => !e.fresh now).entries[i]? = some e := by
        rw [RtCache.takeOut, List.getElem?_map, hi, Option.map_some, hkept]
      obtain ⟨hok', rest, hbefore, hafter⟩ := hok.stamp hi' hlive
      rw [hlive₀] at hbefore
      have hlen : e.path.length = e.segsLeft := hc.path_length hmem
      refine ⟨hok', .inr ⟨{ e with time := now }, e.time, rest, rfl, hdst, hlen,
        (hc.room e hmem).2, hbefore, hafter, ?_⟩⟩
      intro x hx hxdst
      obtain ⟨e', he', hlive', rfl⟩ := mem_liveFrom.mp hx
      have hle := hbestOf e' he' hlive' hxdst
      rw [← hlen, ← hc.path_length he'] at hle
      exact hle

end Lookup

/-! ### `remove_route` -/

section Remove

variable {now : ℕ} {ipaddr srchop dsthop : Addr} {c : RtCache}

/-- The route from `ipaddr` goes from `srchop` to `dsthop` in one hop. -/
def Route.Uses (ipaddr srchop dsthop : Addr) (r : Route) : Prop :=
  ∃ j, (ipaddr :: r.2 ++ [r.1])[j]? = some srchop ∧ (ipaddr :: r.2 ++ [r.1])[j + 1]? = some dsthop

theorem RtCache.Ok.path_getElem? (hc : c.Ok) {e : RtEntry} (he : e ∈ c.entries) {k : ℕ}
    (hk : k < e.segsLeft) : e.path[k]? = some (e.word k) := by
  have hlt : k < e.addr.length := by
    have := hc.room e he
    omega
  rw [RtEntry.path, List.getElem?_take_of_lt hk, RtEntry.word, List.getD_eq_getElem?_getD,
    List.getElem?_append_left hlt, List.getElem?_eq_getElem hlt]
  rfl

theorem RtCache.Ok.word_succ (hc : c.Ok) {e : RtEntry} (he : e ∈ c.entries) {k : ℕ}
    (hk : k < e.segsLeft) (hword : (e.path ++ [e.dst])[k + 1]? = some dsthop) :
    k = e.segsLeft - 1 ∧ e.dst = dsthop ∨ e.word (k + 1) = dsthop := by
  have hlen := hc.path_length he
  rcases Nat.lt_or_ge (k + 1) e.segsLeft with hlt | hge
  · rw [List.getElem?_append_left (hlen ▸ hlt), hc.path_getElem? he hlt] at hword
    exact .inr (Option.some.inj hword)
  · have hzero : k + 1 - e.path.length = 0 := by omega
    rw [List.getElem?_append_right (by omega), hzero] at hword
    exact .inl ⟨by omega, Option.some.inj hword⟩

theorem RtCache.Ok.usesHop_of_uses (hc : c.Ok) {e : RtEntry} (he : e ∈ c.entries)
    (h : Route.Uses ipaddr srchop dsthop e.route) : e.usesHop ipaddr srchop dsthop = true := by
  have hlen := hc.path_length he
  obtain ⟨j, hsrc, hdst⟩ := h
  rw [RtEntry.usesHop]
  cases j with
  | zero =>
      have hsrc : ipaddr = srchop := Option.some.inj hsrc
      replace hdst : (e.path ++ [e.dst])[0]? = some dsthop := hdst
      split_ifs with hzero
      · rw [List.length_eq_zero_iff.mp (hlen.trans hzero)] at hdst
        simpa [hsrc] using hdst
      · have hpos : 0 < e.segsLeft := Nat.pos_of_ne_zero hzero
        rw [List.getElem?_append_left (hlen ▸ hpos), hc.path_getElem? he hpos] at hdst
        simp [hsrc, Option.some.inj hdst]
  | succ k =>
      replace hsrc : (e.path ++ [e.dst])[k]? = some srchop := hsrc
      replace hdst : (e.path ++ [e.dst])[k + 1]? = some dsthop := hdst
      have hk : k < e.segsLeft := by
        have := (List.getElem?_eq_some_iff.mp hdst).1
        rw [List.length_append, List.length_singleton] at this
        omega
      rw [List.getElem?_append_left (hlen ▸ hk), hc.path_getElem? he hk] at hsrc
      have hsrc := Option.some.inj hsrc
      rw [if_neg (by omega)]
      rcases hc.word_succ he hk hdst with ⟨rfl, hd⟩ | hword
      · simp [hsrc, hd]
      · have hany : ((List.range e.segsLeft).any fun j =>
            e.word j == srchop && e.word (j + 1) == dsthop) = true :=
          List.any_eq_true.mpr ⟨k, List.mem_range.mpr hk, by simp [hsrc, hword]⟩
        rw [hany, Bool.or_true]

/-- What is taken out uses the hop, or its last relay is the source of the hop: the word after it
is compared as if it were the next relay. -/
theorem RtCache.Ok.uses_or_last (hc : c.Ok) {e : RtEntry} (he : e ∈ c.entries)
    (h : e.usesHop ipaddr srchop dsthop = true) :
    Route.Uses ipaddr srchop dsthop e.route ∨ e.path.getLast? = some srchop := by
  have hlen := hc.path_length he
  have hword : ∀ k, k < e.segsLeft → (e.path ++ [e.dst])[k]? = some (e.word k) := by
    intro k hk
    rw [List.getElem?_append_left (hlen ▸ hk), hc.path_getElem? he hk]
  have hdst : (e.path ++ [e.dst])[e.segsLeft]? = some e.dst := by
    rw [← hlen, List.getElem?_concat_length]
  rw [RtEntry.usesHop] at h
  split_ifs at h with hzero
  · rw [Bool.and_eq_true, beq_iff_eq, beq_iff_eq] at h
    rw [hzero] at hdst
    exact .inl ⟨0, congrArg some h.1, hdst.trans (congrArg some h.2)⟩
  have hpos : 0 < e.segsLeft := Nat.pos_of_ne_zero hzero
  rw [Bool.or_eq_true, Bool.or_eq_true, Bool.and_eq_true, Bool.and_eq_true, beq_iff_eq, beq_iff_eq,
    beq_iff_eq, beq_iff_eq, List.any_eq_true] at h
  rcases h with (⟨hip, hfirst⟩ | ⟨hlast, -⟩) | ⟨j, hj, hboth⟩
  · exact .inl ⟨0, congrArg some hip, hfirst ▸ hword 0 hpos⟩
  · right
    rw [List.getLast?_eq_getElem?, hlen, ← hlast]
    exact hc.path_getElem? he (by omega)
  · rw [Bool.and_eq_true, beq_iff_eq, beq_iff_eq] at hboth
    have hj := List.mem_range.mp hj
    rcases Nat.lt_or_ge (j + 1) e.segsLeft with hlt | hge
    · exact .inl ⟨j + 1, hboth.1 ▸ hword j hj, hboth.2 ▸ hword (j + 1) hlt⟩
    · right
      rw [List.getLast?_eq_getElem?, hlen, ← hboth.1, show e.segsLeft - 1 = j by omega]
      exact hc.path_getElem? he hj

theorem RtCache.live_removeRoute :
    (removeRoute now ipaddr srchop dsthop c).live now =
      liveFrom now (c.entries.filter fun e => !e.usesHop ipaddr srchop dsthop) := by
  rw [RtCache.live, removeRoute, RtCache.takeOut, liveFrom_clearIf, liveFrom, liveFrom,
    List.filter_filter, List.filter_filter]
  congr 2
  apply List.filter_congr
  intro e _
  rw [RtEntry.live]
  cases e.used <;> cases e.fresh now <;> rfl

theorem filter_liveFrom_le {P : ℕ × Route → Prop} [DecidablePred P] {q : RtEntry → Bool}
    {es : List RtEntry} (h : ∀ e ∈ es, P (e.time, e.route) → q e = true) :
    (liveFrom now es).filter P ≤ liveFrom now (es.filter q) := by
  induction es with
  | nil => exact le_rfl
  | cons e es ih =>
      have ih := ih fun x hx => h x (List.mem_cons_of_mem e hx)
      rw [liveFrom_cons]
      by_cases hlive : e.live now
      · by_cases hP : P (e.time, e.route)
        · rw [if_pos hlive, Multiset.filter_cons_of_pos _ hP,
            List.filter_cons_of_pos (h e List.mem_cons_self hP), liveFrom_cons, if_pos hlive]
          exact Multiset.cons_le_cons _ ih
        · rw [if_pos hlive, Multiset.filter_cons_of_neg _ hP]
          exact ih.trans (liveFrom_le ((List.sublist_cons_self e es).filter q))
      · rw [if_neg hlive]
        exact ih.trans (liveFrom_le ((List.sublist_cons_self e es).filter q))

/-- After `remove_route` no good route uses the hop. What does not use it is still there, but for
routes whose last relay is the source of the hop. -/
theorem removeRoute_spec (hc : c.Ok) (now : ℕ) (ipaddr srchop dsthop : Addr) :
    (removeRoute now ipaddr srchop dsthop c).Ok ∧
      (removeRoute now ipaddr srchop dsthop c).live now ≤ c.live now ∧
      (∀ x ∈ (removeRoute now ipaddr srchop dsthop c).live now,
        ¬x.2.Uses ipaddr srchop dsthop) ∧
      ∀ x : ℕ × Route, ¬x.2.Uses ipaddr srchop dsthop → x.2.2.getLast? ≠ some srchop →
        (c.live now).count x = ((removeRoute now ipaddr srchop dsthop c).live now).count x := by
  have hle : (removeRoute now ipaddr srchop dsthop c).live now ≤ c.live now := by
    rw [RtCache.live_removeRoute]
    exact liveFrom_le List.filter_sublist
  refine ⟨hc.takeOut _, hle, ?_, ?_⟩
  · intro x hx huses
    rw [RtCache.live_removeRoute] at hx
    obtain ⟨e, he, -, rfl⟩ := mem_liveFrom.mp hx
    obtain ⟨he, hnot⟩ := List.mem_filter.mp he
    rw [hc.usesHop_of_uses he huses] at hnot
    exact Bool.noConfusion hnot
  · intro x huses hlast
    apply Nat.le_antisymm _ (Multiset.count_le_of_le x hle)
    rw [RtCache.live_removeRoute, ← Multiset.count_filter_of_pos (p := (· = x)) rfl]
    apply Multiset.count_le_of_le
    apply filter_liveFrom_le
    rintro e he rfl
    rw [Bool.not_eq_true']
    exact Bool.eq_false_iff.mpr fun h => (hc.uses_or_last he h).elim huses hlast

end Remove

/-! ### What is in the entries, whatever the count -/

section Room

variable {P : Addr → Prop} {c : RtCache} {now : ℕ}

/-- Every entry has its array of relays, all of which meet `P` as its destination does, and its
route lies in it. -/
structure RtEntry.Room (P : Addr → Prop) (e : RtEntry) : Prop where
  length : e.addr.length = maxRouteLen
  segs : e.segsLeft ≤ maxRouteLen
  relays : ∀ a ∈ e.addr, P a
  dst : e.dst = 0 ∨ P e.dst

def RtCache.Room (P : Addr → Prop) (c : RtCache) : Prop :=
  ∀ e ∈ c.entries, e.Room P

theorem RtCache.init_room (h : P 0) : RtCache.init.Room P := by
  intro e he
  rw [List.eq_of_mem_replicate he]
  refine ⟨List.length_replicate, Nat.zero_le _, ?_, .inl rfl⟩
  intro a ha
  rwa [List.eq_of_mem_replicate ha]

theorem RtEntry.Room.kept {e e' : RtEntry} (h : e.Room P) (hkept : e.Kept e') : e'.Room P where
  length := hkept.addr ▸ h.length
  segs := hkept.segsLeft ▸ h.segs
  relays := hkept.addr ▸ h.relays
  dst := by
    rcases hkept.dst with hdst | hdst
    · rw [hdst]
      exact h.dst
    · exact .inl hdst

theorem RtCache.Room.of_entries {c' : RtCache} (hc : c.Room P)
    (h : ∀ e' ∈ c'.entries, ∃ e ∈ c.entries, e.Kept e') : c'.Room P := by
  intro e' he'
  obtain ⟨e, he, hkept⟩ := h e' he'
  exact (hc e he).kept hkept

theorem RtCache.Room.takeOut (hc : c.Room P) (p : RtEntry → Bool) : (c.takeOut p).Room P := by
  apply hc.of_entries
  intro e' he'
  obtain ⟨e, he, rfl⟩ := List.mem_map.mp he'
  exact ⟨e, he, e.kept_clearIf p⟩

theorem RtEntry.Room.fill {e : RtEntry} (h : e.Room P) (now : ℕ) {daddr : Addr} {path : List Addr}
    (hlen : path.length ≤ maxRouteLen) (hpath : ∀ a ∈ path, P a) (hdaddr : P daddr) :
    (e.fill now daddr path).Room P where
  length := by
    rw [RtEntry.fill, List.length_append, List.length_drop, h.length]
    omega
  segs := hlen
  relays := by
    intro a ha
    rcases List.mem_append.mp ha with ha | ha
    · exact hpath a ha
    · exact h.relays a (List.mem_of_mem_drop ha)
  dst := .inr hdaddr

theorem learnRoute_room (hc : c.Room P) (now : ℕ) {daddr : Addr} (addr : List Addr)
    {path : List Addr} (hlen : path.length ≤ maxRouteLen) (hpath : ∀ a ∈ path, P a)
    (hdaddr : P daddr) :
    ∃ r, learnRoute now daddr addr path c = some r ∧ r.1.Room P := by
  have hhave : (haveRoute now daddr addr c).1.Room P :=
    hc.of_entries (haveRouteFrom_kept now daddr addr c.entries)
  rw [learnRoute]
  by_cases hfound : (haveRoute now daddr addr c).2
  · exact ⟨_, if_pos hfound, hhave⟩
  · rw [if_neg hfound, addNewRoute, if_pos hlen]
    refine ⟨_, rfl, ?_⟩
    intro e he
    rcases SlotTable.mem_modify he with he | ⟨x, hx, rfl⟩
    · exact hhave e he
    · exact (hhave x hx).fill now hlen hpath hdaddr

/-- What a lookup finds, and that nothing is found for an address that no destination can be. -/
theorem lookupRoute_room (hc : c.Room P) (now : ℕ) (dst : Addr) :
    (lookupRoute now dst c).1.Room P ∧
      ∀ e, (lookupRoute now dst c).2 = some e →
        e.path.length = e.segsLeft ∧ e.segsLeft ≤ maxRouteLen ∧ (∀ a ∈ e.path, P a) ∧ P dst := by
  have hout := hc.takeOut fun e => !e.fresh now
  have hnil : Chosen now dst [] none := fun e he => absurd he List.not_mem_nil
  have hchosen := bestFrom_spec [] c.entries hnil
  rw [List.length_nil, List.nil_append] at hchosen
  rw [lookupRoute]
  cases hbest : bestFrom now dst 0 none c.entries with
  | none => exact ⟨hout, fun e he => by cases he⟩
  | some b =>
      obtain ⟨i, e⟩ := b
      rw [hbest] at hchosen
      obtain ⟨hi, hlive, hdst, -⟩ := hchosen
      have hroom := hc e (List.mem_of_getElem? hi)
      constructor
      · apply hout.of_entries
        intro e' he'
        rcases SlotTable.mem_modify he' with he' | ⟨x, hx, rfl⟩
        · exact ⟨e', he', .refl e'⟩
        · exact ⟨x, hx, x.kept_stamp now⟩
      · intro e' he'
        obtain rfl := Option.some.inj he'
        have hused : e.dst ≠ 0 := bne_iff_ne.mp (Bool.and_eq_true_iff.mp hlive).1
        refine ⟨?_, hroom.segs, fun a ha => hroom.relays a (List.mem_of_mem_take ha),
          hdst ▸ hroom.dst.resolve_left hused⟩
        rw [RtEntry.path, List.length_take, hroom.length]
        exact Nat.min_eq_left hroom.segs

theorem removeRoute_room (hc : c.Room P) (ipaddr srchop dsthop : Addr) :
    (removeRoute now ipaddr srchop dsthop c).Room P :=
  hc.takeOut _

end Room

end WirelessMesh.Dsr
