import WirelessMesh.Haodv.Task
import Mathlib.Data.List.Induction

/-!
# What a handler does to the route table

A handler rewrites entries in place and links new ones at the head. What that means
for the addresses in the table, for the next hops and for the entries of local
subnets is said once for each function; a handler is the composition of what it
calls.
-/

namespace WirelessMesh
namespace Haodv

open Routes

variable {conf : NodeConf} {env : Env}

/-! ## Reading a table -/

def addresses (t : RouteTable) : List U32 := t.cells.map fun c => c.2.address.address

def HopsIn (neighs : NeighList) (t : RouteTable) : Prop :=
  ∀ c ∈ t.cells, ∀ p, c.2.nextHop = some p → ∃ n, (p, n) ∈ neighs.cells

def SubnetEntry (conf : NodeConf) (address : U32) (t : RouteTable) : Prop :=
  ∃ c ∈ t.cells, c.2.address.address = address ∧ c.2.netmask ≠ conf.broadcastAddress

@[simp] theorem addresses_push (t : RouteTable) (r : MeshRoute) :
    addresses (t.push r) = r.address.address :: addresses t := rfl

theorem mem_addresses {t : RouteTable} {a : U32} :
    a ∈ addresses t ↔ ∃ c ∈ t.cells, c.2.address.address = a := List.mem_map

theorem notMem_addresses_of_find? {t : RouteTable} {a : U32}
    (h : t.find? (routeCompare a) = none) : a ∉ addresses t := by
  intro ha
  obtain ⟨c, hc, rfl⟩ := mem_addresses.mp ha
  have := HeapList.not_of_find?_none h hc
  simp [routeCompare] at this

theorem address_of_find? {t : RouteTable} {a : U32} {c : ℕ × MeshRoute}
    (h : t.find? (routeCompare a) = some c) : c.2.address.address = a := by
  simpa [routeCompare] using HeapList.of_find? h

theorem eq_of_find? {t : RouteTable} (hu : (addresses t).Nodup) {a : U32} {c d : ℕ × MeshRoute}
    (h : t.find? (routeCompare a) = some c) (hd : d ∈ t.cells) (hda : d.2.address.address = a) :
    d = c := by
  refine List.inj_on_of_nodup_map hu hd (HeapList.mem_of_find? h) ?_
  exact hda.trans (address_of_find? h).symm

/-! ## The node after loading -/

structure Booted (localIp : U32) (devs : List RouteDev) (node : RouteNode) : Prop where
  addresses_eq : addresses node.routes =
    (devs.map fun dev => dev.address.address).reverse ++ [localIp]
  noHops : ∀ c ∈ node.routes.cells, c.2.nextHop = none
  neighs : node.neighs = .empty
  tasks : node.tasks = []

theorem boot_booted (env : Env) (order : ByteOrder) (supportGateway : Bool)
    (localIp localMask : U32) (devs : List RouteDev) :
    Booted localIp devs (boot env order supportGateway localIp localMask devs).2 := by
  induction devs using List.reverseRecOn with
  | nil =>
      refine ⟨rfl, fun c hc => ?_, rfl, rfl⟩
      obtain rfl := List.mem_singleton.mp hc
      rfl
  | append_singleton devs dev ih =>
      have hboot : boot env order supportGateway localIp localMask (devs ++ [dev]) =
          routeRegisterDevice env dev (boot env order supportGateway localIp localMask devs) := by
        rw [boot, List.foldl_append]
        rfl
      rw [hboot]
      refine ⟨?_, fun c hc => ?_, ih.neighs, ih.tasks⟩
      · rw [List.map_append, List.map_singleton, List.reverse_concat, List.cons_append,
          ← ih.addresses_eq]
        rfl
      · rcases List.mem_cons.mp hc with rfl | hc
        · rfl
        · exact ih.noHops c hc

/-! ## Growth -/

/-- From `t` to `t'`, while the neighbours became `neighs'`: no entry is lost, and
the addresses stay distinct exactly if `C` holds. -/
structure Growth (conf : NodeConf) (C : Prop) (neighs neighs' : NeighList) (t t' : RouteTable) :
    Prop where
  unique : (addresses t').Nodup ↔ (addresses t).Nodup ∧ C
  hops : HopsIn neighs t → HopsIn neighs' t'
  subnets : ∀ a, SubnetEntry conf a t' ↔ SubnetEntry conf a t
  kept : t.cells.map Prod.fst <:+ t'.cells.map Prod.fst

namespace Growth

variable {C C' : Prop} {neighs neighs' neighs'' : NeighList} {t t' t'' : RouteTable}

theorem refl (neighs : NeighList) (t : RouteTable) : Growth conf True neighs neighs t t :=
  ⟨by simp, id, fun _ => .rfl, List.suffix_rfl⟩

theorem trans (h : Growth conf C neighs neighs' t t')
    (h' : Growth conf C' neighs' neighs'' t' t'') :
    Growth conf (C ∧ C') neighs neighs'' t t'' where
  unique := by rw [h'.unique, h.unique, and_assoc]
  hops := fun ht => h'.hops (h.hops ht)
  subnets := fun a => (h'.subnets a).trans (h.subnets a)
  kept := h.kept.trans h'.kept

theorem congr (h : Growth conf C neighs neighs' t t') (hC : (addresses t).Nodup → (C ↔ C')) :
    Growth conf C' neighs neighs' t t' :=
  { h with unique := h.unique.trans (and_congr_right hC) }

theorem trans_left (h : Growth conf C neighs neighs' t t')
    (h' : Growth conf True neighs' neighs'' t' t'') : Growth conf C neighs neighs'' t t'' :=
  (h.trans h').congr fun _ => by simp

theorem trans_right (h : Growth conf True neighs neighs' t t')
    (h' : Growth conf C neighs' neighs'' t' t'') : Growth conf C neighs neighs'' t t'' :=
  (h.trans h').congr fun _ => by simp

end Growth

/-- An entry rewritten in place: a new next hop, if any, is linked. -/
def Edited (neighs : NeighList) (r r' : MeshRoute) : Prop :=
  r'.address = r.address ∧ r'.netmask = r.netmask ∧
    ∀ p, r'.nextHop = some p → r.nextHop = some p ∨ ∃ n, (p, n) ∈ neighs.cells

theorem Edited.refl (neighs : NeighList) (r : MeshRoute) : Edited neighs r r :=
  ⟨rfl, rfl, fun _ hp => .inl hp⟩

theorem growth_of_edited {neighs : NeighList} {t t' : RouteTable}
    (h : HeapList.Pointwise (Edited neighs) t t') : Growth conf True neighs neighs t t' where
  unique := by
    have : addresses t = addresses t' :=
      h.map_snd_eq fun hR => congrArg AodvAddress.address hR.1.symm
    rw [this, and_true]
  hops := by
    intro ht c' hc' p hp
    obtain ⟨r, hr, -, -, hhop⟩ := h.mem_left hc'
    rcases hhop p hp with hold | hlive
    · exact ht _ hr p hold
    · exact hlive
  subnets := by
    intro a
    constructor
    · rintro ⟨c', hc', ha, hmask⟩
      obtain ⟨r, hr, haddr, hnm, -⟩ := h.mem_left hc'
      exact ⟨_, hr, haddr ▸ ha, hnm ▸ hmask⟩
    · rintro ⟨c, hc, ha, hmask⟩
      obtain ⟨r', hr', haddr, hnm, -⟩ := h.mem_right hc
      exact ⟨_, hr', by rw [haddr, ha], by rwa [hnm]⟩
  kept := h.fst_eq ▸ List.suffix_rfl

theorem growth_modify {neighs : NeighList} {f : MeshRoute → MeshRoute}
    (hf : ∀ r, Edited neighs r (f r)) (p : ℕ) (t : RouteTable) :
    Growth conf True neighs neighs t (t.modify p f) :=
  growth_of_edited (HeapList.modify_pointwise (Edited.refl neighs) hf p t)

theorem growth_push {neighs neighs' : NeighList} {r : MeshRoute}
    (hmask : r.netmask = conf.broadcastAddress)
    (hhop : ∀ p, r.nextHop = some p → ∃ n, (p, n) ∈ neighs'.cells)
    (hlive : ∀ c ∈ neighs.cells, c ∈ neighs'.cells) (t : RouteTable) :
    Growth conf (r.address.address ∉ addresses t) neighs neighs' t (t.push r) where
  unique := by rw [addresses_push, List.nodup_cons, and_comm]
  hops := by
    intro ht c hc p hp
    rcases List.mem_cons.mp hc with rfl | hc
    · exact hhop p hp
    · obtain ⟨n, hn⟩ := ht c hc p hp
      exact ⟨n, hlive _ hn⟩
  subnets := by
    intro a
    constructor
    · rintro ⟨c, hc, ha, hne⟩
      rcases List.mem_cons.mp hc with rfl | hc
      · exact absurd hmask hne
      · exact ⟨c, hc, ha, hne⟩
    · rintro ⟨c, hc, h⟩
      exact ⟨c, List.mem_cons_of_mem _ hc, h⟩
  kept := by
    rw [HeapList.cells_push, List.map_cons]
    exact List.suffix_cons _ _

/-! ## Lookups and single entries -/

structure Expired (r r' : MeshRoute) : Prop where
  address : r'.address = r.address
  netmask : r'.netmask = r.netmask
  selfRoute : r'.selfRoute = r.selfRoute
  nextHop : r'.nextHop = none
  routeValid : r'.routeValid = false

/-- An entry as it was, or expired. -/
def Spent (r r' : MeshRoute) : Prop := r' = r ∨ Expired r r'

namespace Spent

variable {r r' r'' : MeshRoute}

theorem refl (r : MeshRoute) : Spent r r := .inl rfl

theorem address_eq (h : Spent r r') : r'.address = r.address := by
  rcases h with rfl | h
  · rfl
  · exact h.address

theorem selfRoute_eq (h : Spent r r') : r'.selfRoute = r.selfRoute := by
  rcases h with rfl | h
  · rfl
  · exact h.selfRoute

theorem trans (h : Spent r r') (h' : Spent r' r'') : Spent r r'' := by
  rcases h' with rfl | h'
  · exact h
  · refine .inr ⟨h'.address.trans h.address_eq, ?_, h'.selfRoute.trans h.selfRoute_eq, h'.nextHop,
      h'.routeValid⟩
    rcases h with rfl | h
    · exact h'.netmask
    · exact h'.netmask.trans h.netmask

/-- What still has a next hop is the entry itself. -/
theorem eq_of_nextHop (h : Spent r r') (hhop : r'.nextHop ≠ none) : r' = r := by
  rcases h with h | h
  · exact h
  · exact absurd h.nextHop hhop

theorem routeCompare_eq (h : Spent r r') (a : U32) : routeCompare a r = routeCompare a r' := by
  rw [routeCompare, routeCompare, h.address_eq]

theorem edited (h : Spent r r') (neighs : NeighList) : Edited neighs r r' := by
  rcases h with rfl | h
  · exact Edited.refl neighs r'
  · refine ⟨h.address, h.netmask, fun p hp => ?_⟩
    rw [h.nextHop] at hp
    cases hp

end Spent

theorem routeExpire_spent (env : Env) (r : MeshRoute) : Spent r (routeExpire env r) := by
  unfold routeExpire
  split
  · exact .inl rfl
  · exact .inr ⟨rfl, rfl, rfl, rfl, rfl⟩

/-- A lookup expires an entry only if its time is over. -/
theorem ageRoute_cases (env : Env) (r : MeshRoute) :
    ageRoute env r = r ∨ timeBefore r.lifetime env.now = true ∧ Expired r (ageRoute env r) ∧
      (ageRoute env r).seq = r.seq + 1 := by
  unfold ageRoute
  split_ifs with hold
  · have htime : timeBefore r.lifetime env.now = true := by
      simp only [Bool.and_eq_true] at hold
      exact hold.1.1
    unfold routeExpire
    cases r.dev with
    | none => exact .inl rfl
    | some _ => exact .inr ⟨htime, ⟨rfl, rfl, rfl, rfl, rfl⟩, rfl⟩
  · exact .inl rfl

theorem ageRoute_spent (env : Env) (r : MeshRoute) : Spent r (ageRoute env r) :=
  (ageRoute_cases env r).imp_right fun h => h.2.1

theorem Spent.ageRoute {r r' : MeshRoute} (env : Env) (h : Spent r r') :
    Spent (ageRoute env r) (ageRoute env r') := by
  rcases h with rfl | h
  · exact .refl _
  · have hsame : Haodv.ageRoute env r' = r' := by simp [Haodv.ageRoute, h.routeValid]
    have haged := ageRoute_spent env r
    rw [hsame]
    refine .inr ⟨h.address.trans haged.address_eq.symm, ?_,
      h.selfRoute.trans haged.selfRoute_eq.symm, h.nextHop, h.routeValid⟩
    rcases haged with heq | hexpired
    · rw [heq]
      exact h.netmask
    · exact h.netmask.trans hexpired.netmask.symm

theorem routeBreak_spent (env : Env) (p : ℕ) (r : MeshRoute) : Spent r (routeBreak env p r) := by
  unfold routeBreak
  split_ifs
  · exact routeExpire_spent env r
  · exact .refl r

theorem routeLookup_spent (env : Env) (a : U32) (t : RouteTable) :
    HeapList.Pointwise Spent t (routeLookup env a t).1 :=
  HeapList.walk_pointwise Spent.refl (ageRoute_spent env) _ t

theorem routeLookup_snd (env : Env) (a : U32) (t : RouteTable) :
    (routeLookup env a t).2 =
      (t.find? (routeCompare a)).map fun c => (c.1, ageRoute env c.2) :=
  HeapList.find?_walk _ _ (fun r => ((ageRoute_spent env r).routeCompare_eq a).symm) t

theorem routeLookup_spec (conf : NodeConf) (env : Env) (neighs : NeighList) (a : U32)
    (t : RouteTable) : ∃ t' found, routeLookup env a t = (t', found) ∧
      t'.find? (routeCompare a) = found ∧ Growth conf True neighs neighs t t' :=
  ⟨_, _, rfl, rfl, growth_of_edited
    (HeapList.walk_pointwise (Edited.refl neighs) (fun r => (ageRoute_spent env r).edited neighs)
      _ t)⟩

def Holds (neighs : NeighList) (hop : Option (ℕ × RouteNeigh)) : Prop :=
  ∀ c, hop = some c → ∃ n, (c.1, n) ∈ neighs.cells

theorem Holds.routeNew {neighs : NeighList} {hop : Option (ℕ × RouteNeigh)} (h : Holds neighs hop)
    (address : AodvAddress) (type : RouteType) (p : ℕ)
    (hp : (routeNew conf hop address type).nextHop = some p) : ∃ n, (p, n) ∈ neighs.cells := by
  obtain ⟨c, hc, rfl⟩ := Option.map_eq_some_iff.mp hp
  exact h c hc

theorem routeInsert_growth {neighs : NeighList} {site : AllocSite}
    {hop : Option (ℕ × RouteNeigh)} {address : AodvAddress} {type : RouteType} {t t' : RouteTable}
    (hhop : Holds neighs hop) (hnew : t.find? (routeCompare address.address) = none)
    (h : routeInsert conf env site hop address type t = some t') :
    Growth conf True neighs neighs t t' := by
  unfold routeInsert at h
  split_ifs at h
  obtain rfl := Option.some.inj h
  refine (growth_push rfl (hhop.routeNew address type) (fun _ h => h) t).congr fun _ => ?_
  exact iff_of_true (notMem_addresses_of_find? hnew) trivial

theorem edited_to_hop {neighs : NeighList} {r r' : MeshRoute} {q : ℕ}
    (haddr : r'.address = r.address) (hmask : r'.netmask = r.netmask)
    (hhop : r'.nextHop = some q) (hlive : ∃ n, (q, n) ∈ neighs.cells) : Edited neighs r r' := by
  refine ⟨haddr, hmask, fun p hp => .inr ?_⟩
  obtain rfl := Option.some.inj (hhop.symm.trans hp)
  exact hlive

theorem routeRenew_growth {neighs : NeighList} {destAdd : AodvAddress}
    {hop : Option (ℕ × RouteNeigh)} {metric : U8} {p : ℕ} {r : MeshRoute} {t t' : RouteTable}
    (hhop : Holds neighs hop) (h : routeRenew env destAdd hop metric p r t = some t') :
    Growth conf True neighs neighs t t' := by
  unfold routeRenew at h
  split_ifs at h
  · obtain rfl := Option.some.inj h
    exact .refl _ _
  · obtain rfl := Option.some.inj h
    exact .refl _ _
  · obtain ⟨c, hc, h⟩ := Option.bind_eq_some_iff.mp h
    obtain rfl := Option.some.inj h
    have hedit (r : MeshRoute) : Edited neighs r (routeAccept env destAdd c metric r) :=
      edited_to_hop rfl rfl rfl (hhop c hc)
    exact growth_modify hedit p t

theorem routeUpdate_growth {neighs : NeighList} {destAdd : AodvAddress}
    {hop : Option (ℕ × RouteNeigh)} {metric : U8} {t : RouteTable} {res : RouteTable × ℤ}
    (hhop : Holds neighs hop) (h : routeUpdate conf env destAdd hop metric t = some res) :
    Growth conf True neighs neighs t res.1 := by
  obtain ⟨t₁, found, heq, hfound, hlook⟩ := routeLookup_spec conf env neighs destAdd.address t
  rw [routeUpdate, heq] at h
  cases found with
  | some c =>
      obtain ⟨t₂, hrenew, h⟩ := Option.bind_eq_some_iff.mp h
      obtain rfl := Option.some.inj h
      exact hlook.trans_right (routeRenew_growth hhop hrenew)
  | none =>
      dsimp only at h
      cases hins : routeInsert conf env .route hop destAdd .aodv t₁ with
      | none =>
          rw [hins] at h
          obtain rfl := Option.some.inj h
          exact hlook
      | some t₂ =>
          rw [hins] at h
          obtain ⟨t₃, hrenew, h⟩ := Option.bind_eq_some_iff.mp h
          obtain rfl := Option.some.inj h
          have hins' := hlook.trans_right (routeInsert_growth hhop hfound hins)
          exact hins'.trans_right (routeRenew_growth hhop hrenew)

theorem neighUpdateRoute_growth {neighs : NeighList} {hop : ℕ × RouteNeigh} {reply : AodvPduReply}
    {t t' : RouteTable} (h : neighUpdateRoute conf env hop reply t = some t')
    (hhop : ∃ n, (hop.1, n) ∈ neighs.cells) :
    Growth conf True neighs neighs t t' := by
  obtain ⟨t₁, found, heq, hfound, hlook⟩ :=
    routeLookup_spec conf env neighs hop.2.address.address t
  have hedit (r : MeshRoute) : Edited neighs r (routeHello env hop reply r) :=
    edited_to_hop rfl rfl rfl hhop
  rw [neighUpdateRoute, heq] at h
  cases found with
  | some c =>
      obtain rfl := Option.some.inj h
      exact hlook.trans_right (growth_modify hedit _ _)
  | none =>
      obtain ⟨t₂, hins, h⟩ := Option.bind_eq_some_iff.mp h
      obtain rfl := Option.some.inj h
      have hholds : Holds neighs (some hop) := fun c hc => Option.some.inj hc ▸ hhop
      have hins' := hlook.trans_right (routeInsert_growth hholds hfound hins)
      exact hins'.trans_right (growth_modify hedit _ _)

/-! ## The last hop -/

/-- The sender of the task is unknown and gets a record and a route. -/
def CreatesNeigh (env : Env) (task : PduTask) (neighs : NeighList) : Prop :=
  neighLookup task neighs = none ∧ env.mem .neigh = true ∧ env.mem .neighRoute = true

instance (env : Env) (task : PduTask) (neighs : NeighList) :
    Decidable (CreatesNeigh env task neighs) :=
  inferInstanceAs (Decidable (_ ∧ _ ∧ _))

theorem lastHop_cases (conf : NodeConf) (env : Env) (task : PduTask) (node : RouteNode) :
    (∃ hop, lastHop conf env task node = (node, hop) ∧ hop = neighLookup task node.neighs ∧
        ¬CreatesNeigh env task node.neighs) ∨
      CreatesNeigh env task node.neighs ∧
        lastHop conf env task node =
          ({ node with
              routes := node.routes.push
                { routeNew conf (some (node.neighs.next, neighNew task)) task.header.src .aodv with
                  hopCount := 1 }
              neighs := node.neighs.push (neighNew task) },
            some (node.neighs.next, neighNew task)) := by
  unfold lastHop neighInsert CreatesNeigh
  cases hl : neighLookup task node.neighs with
  | some hop => exact .inl ⟨some hop, rfl, rfl, by simp⟩
  | none =>
      dsimp only
      split_ifs with hmem
      · exact .inr ⟨⟨rfl, by simpa using hmem⟩, rfl⟩
      · exact .inl ⟨none, rfl, rfl, by simpa using hmem⟩

theorem neighLookup_holds (task : PduTask) (neighs : NeighList) :
    Holds neighs (neighLookup task neighs) :=
  fun c hc => ⟨c.2, HeapList.mem_of_find? hc⟩

/-- A neighbour is created only where there is no route to it yet. -/
def SenderUnique (env : Env) (task : PduTask) (node : RouteNode) : Prop :=
  CreatesNeigh env task node.neighs → task.header.src.address ∉ addresses node.routes

instance (env : Env) (task : PduTask) (node : RouteNode) : Decidable (SenderUnique env task node) :=
  inferInstanceAs (Decidable (_ → _ ∉ _))

/-- The only insertion that is made without a lookup, but for local subnets. -/
theorem lastHop_growth (conf : NodeConf) (env : Env) (task : PduTask) (node : RouteNode) :
    Growth conf (SenderUnique env task node) node.neighs
      (lastHop conf env task node).1.neighs node.routes (lastHop conf env task node).1.routes ∧
    Holds (lastHop conf env task node).1.neighs (lastHop conf env task node).2 := by
  obtain ⟨hop, heq, rfl, hc⟩ | ⟨hc, heq⟩ := lastHop_cases conf env task node
  · rw [heq]
    refine ⟨(Growth.refl _ _).congr fun _ => ?_, neighLookup_holds task node.neighs⟩
    exact iff_of_true trivial fun h => absurd h hc
  · rw [heq]
    have hnew : ∃ n, (node.neighs.next, n) ∈ (node.neighs.push (neighNew task)).cells :=
      ⟨neighNew task, List.mem_cons_self⟩
    refine ⟨(growth_push rfl ?_ (fun _ h => List.mem_cons_of_mem _ h) _).congr fun _ => ?_, ?_⟩
    · intro p hp
      obtain rfl := Option.some.inj hp
      exact hnew
    · exact (imp_iff_right hc).symm
    · intro c hc
      obtain rfl := Option.some.inj hc
      exact hnew

/-! ## A RREQ -/

theorem reverseRoute_growth (conf : NodeConf) (env : Env) {neighs : NeighList}
    {hop : Option (ℕ × RouteNeigh)} (hhop : Holds neighs hop) (origAdd : AodvAddress)
    (t : RouteTable) :
    Growth conf True neighs neighs t (reverseRoute conf env origAdd hop t) := by
  obtain ⟨t₁, found, heq, hfound, hlook⟩ := routeLookup_spec conf env neighs origAdd.address t
  rw [reverseRoute, heq]
  cases found with
  | some c =>
      have hedit (r : MeshRoute) : Edited neighs r { r with nextHop := hop.map Prod.fst } := by
        refine ⟨rfl, rfl, fun p hp => .inr ?_⟩
        obtain ⟨d, hd, rfl⟩ := Option.map_eq_some_iff.mp hp
        exact hhop d hd
      exact hlook.trans_right (growth_modify hedit _ _)
  | none =>
      dsimp only
      cases hins : routeInsert conf env .route hop origAdd .aodv t₁ with
      | none => exact hlook
      | some t₂ => exact hlook.trans_right (routeInsert_growth hhop hfound hins)

theorem createLocal_growth {neighs : NeighList} {dev : RouteDev} {destAdd : AodvAddress}
    {myRoute : Option ℕ} {t t' : RouteTable}
    (h : createLocal conf env dev destAdd myRoute t = some t') :
    Growth conf (destAdd.address ∉ addresses t) neighs neighs t t' := by
  obtain ⟨p, -, h⟩ := Option.bind_eq_some_iff.mp h
  obtain ⟨my, -, h⟩ := Option.bind_eq_some_iff.mp h
  split_ifs at h
  obtain rfl := Option.some.inj h
  have hmask : (routeRefresh env (routeLocal conf dev destAdd my)).netmask =
      conf.broadcastAddress := by
    simp only [routeRefresh, routeLocal, routeNew]
  refine growth_push hmask (fun q hq => ?_) (fun _ h => h) t
  simp [routeRefresh, routeLocal, routeNew] at hq

/-- A node that is no gateway answers for a destination outside its subnets if it has
an entry with a netmask of its own, and links a second entry for it. -/
def AnswersForSubnet (conf : NodeConf) (dest : U32) (t : RouteTable) : Prop :=
  conf.checkSubnet dest = false ∧ conf.supportGateway = false ∧ SubnetEntry conf dest t

instance (conf : NodeConf) (dest : U32) (t : RouteTable) :
    Decidable (AnswersForSubnet conf dest t) :=
  inferInstanceAs (Decidable (_ ∧ _ ∧ ∃ c ∈ t.cells, _ ∧ _))

section Answer

variable {neighs : NeighList} {dev : RouteDev} {request : AodvPduRequest} {myRoute : Option ℕ}
  {t t₁ : RouteTable} {found : Option (ℕ × MeshRoute)} {res : RouteTable × Bool}

theorem Growth.notAnswering {dest : U32} {t' : RouteTable}
    (hlook : Growth conf True neighs neighs t t₁) (hn : ¬AnswersForSubnet conf dest t)
    (hg : Growth conf True neighs neighs t₁ t') :
    Growth conf (¬AnswersForSubnet conf dest t) neighs neighs t t' :=
  (hlook.trans_right hg).congr fun _ => iff_of_true trivial hn

theorem requestShouldBeReply_inside (hsub : conf.checkSubnet request.dstIp = true)
    (heq : routeLookup env request.dstIp t = (t₁, found))
    (hlook : Growth conf True neighs neighs t t₁)
    (h : requestShouldBeReply conf env dev request myRoute t = some res) :
    Growth conf (¬AnswersForSubnet conf request.dstIp t) neighs neighs t res.1 := by
  have hn : ¬AnswersForSubnet conf request.dstIp t := fun ha => by simp [ha.1] at hsub
  have hseq (r : MeshRoute) : Edited neighs r { r with seq := request.dstSeq + 1 } :=
    ⟨rfl, rfl, fun _ hp => .inl hp⟩
  unfold requestShouldBeReply at h
  simp only [heq, hsub, Bool.not_true, Bool.false_eq_true, if_false] at h
  cases found with
  | none =>
      obtain rfl := Option.some.inj h
      exact hlook.notAnswering hn (.refl _ _)
  | some c =>
      dsimp only at h
      split_ifs at h
      · obtain rfl := Option.some.inj h
        exact hlook.notAnswering hn (growth_modify hseq _ _)
      · obtain rfl := Option.some.inj h
        exact hlook.notAnswering hn (.refl _ _)
      · obtain rfl := Option.some.inj h
        exact hlook.notAnswering hn (.refl _ _)

theorem requestShouldBeReply_gateway (hsub : conf.checkSubnet request.dstIp = false)
    (hgw : conf.supportGateway = true) (heq : routeLookup env request.dstIp t = (t₁, found))
    (hfound : t₁.find? (routeCompare request.dstIp) = found)
    (hlook : Growth conf True neighs neighs t t₁)
    (h : requestShouldBeReply conf env dev request myRoute t = some res) :
    Growth conf (¬AnswersForSubnet conf request.dstIp t) neighs neighs t res.1 := by
  have hn : ¬AnswersForSubnet conf request.dstIp t := fun ha => by simp [ha.2.1] at hgw
  have hrefresh (r : MeshRoute) : Edited neighs r (routeRefresh env r) := by
    simp only [routeRefresh]
    exact ⟨rfl, rfl, fun _ hp => .inl hp⟩
  unfold requestShouldBeReply at h
  simp only [heq, hsub, hgw, Bool.not_false, if_true] at h
  cases found with
  | none =>
      obtain ⟨t₂, hcreate, h⟩ := Option.bind_eq_some_iff.mp h
      obtain rfl := Option.some.inj h
      refine hlook.notAnswering hn ((createLocal_growth hcreate).congr fun _ => ?_)
      exact iff_of_true (notMem_addresses_of_find? hfound) trivial
  | some c =>
      obtain rfl := Option.some.inj h
      exact hlook.notAnswering hn (growth_modify hrefresh _ _)

/-- Any other node creates an entry exactly if the one that it found has a netmask of
its own, so beside that one. -/
theorem requestShouldBeReply_outside (hsub : conf.checkSubnet request.dstIp = false)
    (hgw : conf.supportGateway = false) (heq : routeLookup env request.dstIp t = (t₁, found))
    (hfound : t₁.find? (routeCompare request.dstIp) = found)
    (hlook : Growth conf True neighs neighs t t₁)
    (h : requestShouldBeReply conf env dev request myRoute t = some res) :
    Growth conf (¬AnswersForSubnet conf request.dstIp t) neighs neighs t res.1 := by
  unfold requestShouldBeReply at h
  simp only [heq, hsub, hgw, Bool.not_false, if_true, Bool.false_eq_true, if_false] at h
  cases found with
  | none =>
      obtain rfl := Option.some.inj h
      refine hlook.notAnswering ?_ (.refl _ _)
      rintro ⟨-, -, hentry⟩
      obtain ⟨c, hc, ha, -⟩ := (hlook.subnets _).mpr hentry
      exact notMem_addresses_of_find? hfound (mem_addresses.mpr ⟨c, hc, ha⟩)
  | some c =>
      have hmem := HeapList.mem_of_find? hfound
      have haddr := address_of_find? hfound
      dsimp only at h
      split_ifs at h with hmask
      · -- the second entry: the address is in the table already
        obtain ⟨t₂, hcreate, h⟩ := Option.bind_eq_some_iff.mp h
        obtain rfl := Option.some.inj h
        refine (hlook.trans_right (createLocal_growth hcreate)).congr fun _ => ?_
        refine iff_of_false ?_ ?_
        · exact not_not.mpr (mem_addresses.mpr ⟨c, hmem, haddr⟩)
        · exact not_not.mpr ⟨hsub, hgw, (hlook.subnets _).mp ⟨c, hmem, haddr, hmask⟩⟩
      · obtain rfl := Option.some.inj h
        refine hlook.congr fun hu => iff_of_true trivial ?_
        rintro ⟨-, -, hentry⟩
        obtain ⟨d, hd, ha, hd'⟩ := (hlook.subnets _).mpr hentry
        obtain rfl := eq_of_find? (hlook.unique.mpr ⟨hu, trivial⟩) hfound hd ha
        exact hd' (not_not.mp hmask)

theorem requestShouldBeReply_growth
    (h : requestShouldBeReply conf env dev request myRoute t = some res) :
    Growth conf (¬AnswersForSubnet conf request.dstIp t) neighs neighs t res.1 := by
  obtain ⟨t₁, found, heq, hfound, hlook⟩ := routeLookup_spec conf env neighs request.dstIp t
  cases hsub : conf.checkSubnet request.dstIp with
  | true => exact requestShouldBeReply_inside hsub heq hlook h
  | false =>
      cases hgw : conf.supportGateway with
      | true => exact requestShouldBeReply_gateway hsub hgw heq hfound hlook h
      | false => exact requestShouldBeReply_outside hsub hgw heq hfound hlook h

end Answer

theorem sendReply_growth {dev : RouteDev} {task : PduTask} {node : RouteNode} {done : Done}
    (h : sendReply conf env dev task node = some done) :
    ∃ t, done.node = { node with routes := t } ∧
      Growth conf True node.neighs node.neighs node.routes t := by
  obtain ⟨t₁, found, heq, -, hlook⟩ :=
    routeLookup_spec conf env node.neighs task.header.src.address node.routes
  rw [sendReply, heq] at h
  cases found with
  | none =>
      obtain rfl := Option.some.inj h
      exact ⟨t₁, rfl, hlook⟩
  | some c =>
      obtain ⟨t₂, found, heq, -, hlook'⟩ :=
        routeLookup_spec conf env node.neighs task.header.dest.address t₁
      simp only [heq] at h
      cases found with
      | none =>
          obtain rfl := Option.some.inj h
          exact ⟨t₂, rfl, hlook.trans_right hlook'⟩
      | some d =>
          dsimp only at h
          split_ifs at h
          · obtain rfl := Option.some.inj h
            exact ⟨t₂, rfl, hlook.trans_right hlook'⟩
          · obtain ⟨sent, -, h⟩ := Option.bind_eq_some_iff.mp h
            obtain rfl := Option.some.inj h
            exact ⟨t₂, rfl, hlook.trans_right hlook'⟩

def RequestPasses (env : Env) (task : PduTask) (request : AodvPduRequest) (node : RouteNode) :
    Prop :=
  1 < task.header.ttl ∧ floodLookup env request.srcIp request.rreqId node.floods = none

def RequestUnique (conf : NodeConf) (env : Env) (task : PduTask) (request : AodvPduRequest)
    (node : RouteNode) : Prop :=
  RequestPasses env task request node →
    SenderUnique env task node ∧ ¬AnswersForSubnet conf request.dstIp node.routes

instance (conf : NodeConf) (env : Env) (task : PduTask) (request : AodvPduRequest)
    (node : RouteNode) : Decidable (RequestUnique conf env task request node) :=
  inferInstanceAs (Decidable (_ ∧ _ → _ ∧ ¬_))

/-- A RREQ that passed: what its handler leaves, but for what it sends. -/
structure RequestTrace (conf : NodeConf) (env : Env) (task : PduTask) (request : AodvPduRequest)
    (node : RouteNode) (done : Done) : Prop where
  passes : RequestPasses env task request node
  growth : Growth conf
    (SenderUnique env task node ∧ ¬AnswersForSubnet conf request.dstIp node.routes)
    node.neighs done.node.neighs node.routes done.node.routes
  kept : (lastHop conf env task node).1.routes.cells.map Prod.fst <:+
    done.node.routes.cells.map Prod.fst
  left : done.node = { (lastHop conf env task node).1 with
    routes := done.node.routes
    floods := (floodInsert env ⟨request.srcIp, request.srcSeq⟩ ⟨request.dstIp, request.dstSeq⟩
      request.rreqId (env.now + pathDiscoveryTime) (lastHop conf env task node).1.floods).1 }

theorem rxRequest_cases {dev : RouteDev} {task : PduTask} {request : AodvPduRequest}
    {node : RouteNode} {done : Done} (h : rxRequest conf env dev task request node = some done) :
    (¬RequestPasses env task request node ∧ done.node = node ∧ done.sent = []) ∨
      RequestTrace conf env task request node done := by
  unfold rxRequest at h
  split_ifs at h with httl hflood
  · obtain rfl := Option.some.inj h
    refine .inl ⟨fun hp => ?_, rfl, rfl⟩
    exact absurd hp.1 (by simpa using httl)
  · obtain rfl := Option.some.inj h
    refine .inl ⟨fun hp => ?_, rfl, rfl⟩
    simp [hp.2] at hflood
  · right
    have hpass : RequestPasses env task request node := ⟨by simpa using httl, by simpa using hflood⟩
    obtain ⟨hlast, hhop⟩ := lastHop_growth conf env task node
    obtain ⟨⟨t₁, answer⟩, hreply, h⟩ := Option.bind_eq_some_iff.mp h
    have hrev := reverseRoute_growth conf env hhop ⟨request.srcIp, request.srcSeq⟩
      (lastHop conf env task node).1.routes
    have hans := hrev.trans_right (requestShouldBeReply_growth hreply)
    have hsame : AnswersForSubnet conf request.dstIp (reverseRoute conf env
        ⟨request.srcIp, request.srcSeq⟩ (lastHop conf env task node).2
        (lastHop conf env task node).1.routes) ↔
        AnswersForSubnet conf request.dstIp node.routes := by
      simp only [AnswersForSubnet, (hlast.trans_left hrev).subnets]
    have hall := (hlast.trans hans).congr fun _ => and_congr_right' (not_congr hsame)
    cases answer with
    | false =>
        obtain rfl := Option.some.inj h
        exact ⟨hpass, hall, hans.kept, rfl⟩
    | true =>
        obtain ⟨d, hsend, h⟩ := Option.bind_eq_some_iff.mp h
        obtain rfl := Option.some.inj h
        obtain ⟨t₂, hnode, hlook⟩ := sendReply_growth hsend
        refine ⟨hpass, ?_, ?_, ?_⟩
        · rw [hnode]
          exact hall.trans_left hlook
        · rw [hnode]
          exact hans.kept.trans hlook.kept
        · rw [hnode]
          rfl

/-! ## The other PDUs -/

theorem routeReport_edited (env : Env) (neighs : NeighList) (seq : U32) (r : MeshRoute) :
    Edited neighs r (routeReport env seq r) := by
  unfold routeReport
  dsimp only
  split_ifs
  · exact (routeExpire_spent env { r with seq := seq }).edited neighs
  · exact ⟨rfl, rfl, fun _ hp => .inl hp⟩

theorem rxErrorLoop_growth {neighs : NeighList} {src : U32} {dests : List AodvDest} {i : ℕ}
    {scan scan' : ErrorScan} (h : rxErrorLoop conf env neighs src dests i scan = some scan') :
    Growth conf True neighs neighs scan.routes scan'.routes := by
  induction dests generalizing i scan with
  | nil =>
      obtain rfl := Option.some.inj h
      exact .refl _ _
  | cons dest dests ih =>
      obtain ⟨t₁, found, heq, -, hlook⟩ := routeLookup_spec conf env neighs dest.ip scan.routes
      rw [rxErrorLoop, heq] at h
      cases found with
      | none => exact hlook.trans_right (ih h)
      | some c =>
          dsimp only at h
          by_cases hself : c.2.selfRoute = true
          · rw [if_pos hself] at h
            exact hlook.trans_right (ih h)
          · rw [if_neg hself] at h
            obtain ⟨hop, -, h⟩ := Option.bind_eq_some_iff.mp h
            split_ifs at h
            · exact hlook.trans_right (ih h)
            · have hg := hlook.trans_right
                (growth_modify (routeReport_edited env neighs (conf.htonl dest.seq)) c.1 t₁)
              exact hg.trans_right (ih h)

theorem rxError_growth {task : PduTask} {errpdu : AodvPduError} {node : RouteNode} {done : Done}
    (h : rxError conf env task errpdu node = some done) :
    ∃ t, done.node = { node with routes := t } ∧
      Growth conf True node.neighs node.neighs node.routes t := by
  unfold rxError at h
  dsimp only at h
  by_cases hcount : errpdu.dstCount.toNat = 0
  · rw [if_pos hcount] at h
    obtain rfl := Option.some.inj h
    exact ⟨node.routes, rfl, .refl _ _⟩
  · rw [if_neg hcount] at h
    obtain ⟨scan, hscan, h⟩ := Option.bind_eq_some_iff.mp h
    have hg := rxErrorLoop_growth hscan
    split_ifs at h <;> obtain rfl := Option.some.inj h <;> exact ⟨scan.routes, rfl, hg⟩

theorem Growth.modify_neigh {C : Prop} {neighs neighs' : NeighList} {t t' : RouteTable}
    (h : Growth conf C neighs neighs' t t') (p : ℕ) (f : RouteNeigh → RouteNeigh) :
    Growth conf C neighs (neighs'.modify p f) t t' :=
  { h with
    hops := fun ht c hc q hq => by
      obtain ⟨n, hn⟩ := h.hops ht c hc q hq
      exact ⟨_, HeapList.mem_modify.mpr ⟨n, hn, rfl⟩⟩ }

theorem lastHop_floods (conf : NodeConf) (env : Env) (task : PduTask) (node : RouteNode) :
    (lastHop conf env task node).1.floods = node.floods := by
  obtain ⟨hop, heq, -⟩ | ⟨-, heq⟩ := lastHop_cases conf env task node <;> rw [heq]

theorem rxHello_growth {dev : RouteDev} {task : PduTask} {reply : AodvPduReply} {node : RouteNode}
    {done : Done} (h : rxHello conf env dev task reply node = some done) :
    Growth conf (SenderUnique env task node) node.neighs done.node.neighs node.routes
        done.node.routes ∧ done.node.floods = node.floods := by
  obtain ⟨hlast, hhop⟩ := lastHop_growth conf env task node
  have hfloods := lastHop_floods conf env task node
  unfold rxHello at h
  generalize lastHop conf env task node = res at hlast hhop hfloods h
  obtain ⟨node', hop⟩ := res
  cases hop with
  | none =>
      obtain rfl := Option.some.inj h
      exact ⟨hlast, hfloods⟩
  | some c =>
      obtain ⟨t, hup, h⟩ := Option.bind_eq_some_iff.mp h
      obtain rfl := Option.some.inj h
      have hg := hlast.trans_left (neighUpdateRoute_growth hup (hhop c rfl))
      refine ⟨?_, hfloods⟩
      dsimp only
      exact hg.modify_neigh c.1 _

theorem rxReply_growth {dev : RouteDev} {task : PduTask} {reply : AodvPduReply} {node : RouteNode}
    {done : Done} (h : rxReply conf env dev task reply node = some done) :
    Growth conf (SenderUnique env task node) node.neighs done.node.neighs node.routes
        done.node.routes ∧ done.node.floods = node.floods := by
  unfold rxReply at h
  dsimp only at h
  split_ifs at h
  · obtain ⟨d, hhello, h⟩ := Option.bind_eq_some_iff.mp h
    obtain rfl := Option.some.inj h
    have hg := rxHello_growth hhello
    exact hg
  · obtain ⟨hlast, hhop⟩ :=
      lastHop_growth conf env task { node with timers := timerDelete .resendRreq 0 node.timers }
    have hfloods := lastHop_floods conf env task
      { node with timers := timerDelete .resendRreq 0 node.timers }
    generalize lastHop conf env task _ = res at hlast hhop hfloods h
    obtain ⟨node', hop⟩ := res
    obtain ⟨destAdd, -, h⟩ := Option.bind_eq_some_iff.mp h
    obtain ⟨⟨t₁, ret⟩, hup, h⟩ := Option.bind_eq_some_iff.mp h
    obtain ⟨t₂, found, heq, -, hlook⟩ := routeLookup_spec conf env node'.neighs reply.srcIp t₁
    have hg := (hlast.trans_left (routeUpdate_growth hhop hup)).trans_left hlook
    simp only [heq] at h
    cases found with
    | none =>
        obtain rfl := Option.some.inj h
        exact ⟨hg, hfloods⟩
    | some c =>
        dsimp only at h
        split_ifs at h
        · obtain rfl := Option.some.inj h
          exact ⟨hg, hfloods⟩
        · split at h
          · obtain ⟨sent, -, h⟩ := Option.bind_eq_some_iff.mp h
            obtain rfl := Option.some.inj h
            exact ⟨hg, hfloods⟩
          · obtain rfl := Option.some.inj h
            exact ⟨hg, hfloods⟩

/-! ## Sending -/

theorem routeBump_edited (neighs : NeighList) (r : MeshRoute) : Edited neighs r (routeBump r) :=
  ⟨rfl, rfl, fun _ hp => .inl hp⟩

theorem sendRequest_cases (conf : NodeConf) (env : Env) (dev : RouteDev) (retry : RouteTask)
    (node : RouteNode) :
    (∃ t, (sendRequest conf env dev retry node).node = { node with routes := t } ∧
        (sendRequest conf env dev retry node).sent = [] ∧
        Growth conf True node.neighs node.neighs node.routes t) ∨
      ∃ (t : RouteTable) (p : ℕ) (own : MeshRoute) (dst : Option (ℕ × MeshRoute))
          (timers : List RouteTask),
        0 ≤ (floodInsert env dev.address retry.dest (own.reqId + 1)
          (env.now + pathDiscoveryTime) node.floods).2 ∧
        t = (routeLookup env dev.address.address
          (routeLookup env retry.dest.address node.routes).1).1 ∧
        t.find? (routeCompare dev.address.address) = some (p, own) ∧
        sendRequest conf env dev retry node = ⟨0,
          { node with
            routes := t.modify p routeBump
            floods := (floodInsert env dev.address retry.dest (own.reqId + 1)
              (env.now + pathDiscoveryTime) node.floods).1
            timers := timers },
          conf.devBroadcast dev netDiameter (.request (pduRequest conf dev retry.dest dst own))⟩ ∧
        Growth conf True node.neighs node.neighs node.routes (t.modify p routeBump) := by
  have hsame : ∀ ret : ℤ, ∃ t, (⟨ret, node, []⟩ : Done).node = { node with routes := t } ∧
      (⟨ret, node, []⟩ : Done).sent = [] ∧
      Growth conf True node.neighs node.neighs node.routes t :=
    fun _ => ⟨node.routes, rfl, rfl, .refl _ _⟩
  unfold sendRequest
  split_ifs
  · exact .inl (hsame 0)
  · exact .inl (hsame 0)
  · exact .inl (hsame enomem)
  · obtain ⟨t₁, dst, heq₁, -, hlook₁⟩ :=
      routeLookup_spec conf env node.neighs retry.dest.address node.routes
    obtain ⟨t₂, found, heq₂, hfound, hlook₂⟩ :=
      routeLookup_spec conf env node.neighs dev.address.address t₁
    have hlook := hlook₁.trans_right hlook₂
    simp only [heq₁, heq₂]
    cases found with
    | none => exact .inl ⟨t₂, rfl, rfl, hlook⟩
    | some c =>
        have hg := hlook.trans_right (growth_modify (routeBump_edited node.neighs) c.1 t₂)
        dsimp only
        split_ifs with hres
        · exact .inl ⟨_, rfl, rfl, hg⟩
        · exact .inr ⟨t₂, c.1, c.2, dst, _, not_lt.mp hres, rfl, hfound, rfl, hg⟩

theorem sendRequest_growth (conf : NodeConf) (env : Env) (dev : RouteDev) (retry : RouteTask)
    (node : RouteNode) :
    (sendRequest conf env dev retry node).node.neighs = node.neighs ∧
      Growth conf True node.neighs node.neighs node.routes
        (sendRequest conf env dev retry node).node.routes := by
  obtain ⟨t, heq, -, hg⟩ | ⟨t, p, own, dst, timers, -, -, -, heq, hg⟩ :=
    sendRequest_cases conf env dev retry node
  · rw [heq]
    exact ⟨rfl, hg⟩
  · rw [heq]
    exact ⟨rfl, hg⟩

theorem routeUse_edited (env : Env) (neighs : NeighList) (r : MeshRoute) :
    Edited neighs r (routeUse env r) := by
  simp only [routeUse]
  exact ⟨rfl, rfl, fun _ hp => .inl hp⟩

theorem ipPacketOutput_cases {dev : RouteDev} {daddr : U32} {node : RouteNode} {done : Done}
    (h : ipPacketOutput conf env dev daddr node = some done) :
    ∃ t, Growth conf True node.neighs node.neighs node.routes t ∧
      (done = ⟨0, { node with routes := t }, []⟩ ∨
        done = sendRequest conf env dev (retryTask env dev daddr) { node with routes := t }) := by
  obtain ⟨t, found, heq, -, hlook⟩ := routeLookup_spec conf env node.neighs daddr node.routes
  have hask {done : Done}
      (h : askForRoute conf env dev daddr { node with routes := t } = some done) :
      done = sendRequest conf env dev (retryTask env dev daddr) { node with routes := t } := by
    unfold askForRoute at h
    split_ifs at h
    exact (Option.some.inj h).symm
  unfold ipPacketOutput at h
  simp only [heq] at h
  split_ifs at h
  · exact ⟨node.routes, .refl _ _, .inl (Option.some.inj h).symm⟩
  · exact ⟨node.routes, .refl _ _, .inl (Option.some.inj h).symm⟩
  · cases found with
    | none => exact ⟨t, hlook, .inr (hask h)⟩
    | some c =>
        dsimp only at h
        split_ifs at h
        · exact ⟨t, hlook, .inr (hask h)⟩
        · exact ⟨t, hlook, .inl (Option.some.inj h).symm⟩
        · have hg := hlook.trans_right (growth_modify (routeUse_edited env node.neighs) c.1 t)
          exact ⟨_, hg, .inl (Option.some.inj h).symm⟩

theorem ipPacketOutput_growth {dev : RouteDev} {daddr : U32} {node : RouteNode} {done : Done}
    (h : ipPacketOutput conf env dev daddr node = some done) :
    done.node.neighs = node.neighs ∧
      Growth conf True node.neighs node.neighs node.routes done.node.routes := by
  obtain ⟨t, hg, rfl | rfl⟩ := ipPacketOutput_cases h
  · exact ⟨rfl, hg⟩
  · obtain ⟨hneighs, hreq⟩ :=
      sendRequest_growth conf env dev (retryTask env dev daddr) { node with routes := t }
    exact ⟨hneighs, hg.trans_right hreq⟩

/-! ## Neighbours that are dropped -/

theorem sendError_growth (conf : NodeConf) (env : Env) (neighs : NeighList) (p : ℕ)
    (t : RouteTable) : Growth conf True neighs neighs t (sendError conf env p t).1 := by
  unfold sendError
  dsimp only
  split_ifs
  · exact .refl _ _
  · exact .refl _ _
  · exact growth_of_edited (HeapList.map_pointwise fun _ r _ =>
      (routeBreak_spent env p r).edited neighs)

theorem neighDeleteLoop_growth (conf : NodeConf) (env : Env) (address : Option AodvAddress)
    (neighs : NeighList) (cs : List (ℕ × RouteNeigh)) (node : RouteNode) :
    Growth conf True neighs neighs node.routes
        (neighDeleteLoop conf env address cs node).1.routes ∧
      (neighDeleteLoop conf env address cs node).1.floods = node.floods := by
  induction cs generalizing node with
  | nil => exact ⟨.refl _ _, rfl⟩
  | cons c cs ih =>
      rw [neighDeleteLoop]
      split_ifs
      · obtain ⟨hg, hfloods⟩ := ih (neighDrop conf env c node).1
        obtain ⟨t, found, heq, -, hlook⟩ :=
          routeLookup_spec conf env neighs c.2.address.address node.routes
        have hdrop : (neighDrop conf env c node).1.routes = (sendError conf env c.1 t).1 := by
          rw [neighDrop, heq]
        rw [hdrop] at hg
        exact ⟨(hlook.trans_right (sendError_growth conf env neighs c.1 t)).trans_right hg, hfloods⟩
      · exact ih node

/-! ## The kernel thread at a PDU -/

def Task.request? : Task → Option (PduTask × AodvPduRequest)
  | .pdu task =>
      match task.header.subType, task.data with
      | .rreq, .request request => some (task, request)
      | _, _ => none
  | .mgmt _ => none

def Task.reply? : Task → Option PduTask
  | .pdu task => if task.header.subType = .rrep then some task else none
  | .mgmt _ => none

def TaskUnique (conf : NodeConf) (env : Env) (task : Task) (node : RouteNode) : Prop :=
  (∀ c ∈ task.request?, RequestUnique conf env c.1 c.2 node) ∧
    ∀ t ∈ task.reply?, SenderUnique env t node

instance (conf : NodeConf) (env : Env) (task : Task) (node : RouteNode) :
    Decidable (TaskUnique conf env task node) :=
  have : Decidable (∀ c ∈ task.request?, RequestUnique conf env c.1 c.2 node) :=
    Option.decidableForallMem _
  have : Decidable (∀ t ∈ task.reply?, SenderUnique env t node) := Option.decidableForallMem _
  inferInstanceAs (Decidable (_ ∧ _))

theorem rxRequest_growth {dev : RouteDev} {task : PduTask} {request : AodvPduRequest}
    {node : RouteNode} {done : Done} (h : rxRequest conf env dev task request node = some done) :
    Growth conf (RequestUnique conf env task request node) node.neighs done.node.neighs node.routes
      done.node.routes := by
  obtain ⟨hpass, hnode, -⟩ | tr := rxRequest_cases h
  · rw [hnode]
    exact (Growth.refl _ _).congr fun _ => iff_of_true trivial fun hp => absurd hp hpass
  · exact tr.growth.congr fun _ => (imp_iff_right tr.passes).symm

theorem handlePdu_growth {task : PduTask} {node : RouteNode} {done : Done}
    (h : handlePdu conf env task node = some done) :
    Growth conf (TaskUnique conf env (.pdu task) node) node.neighs done.node.neighs node.routes
      done.node.routes := by
  obtain ⟨dev, -, h⟩ := Option.bind_eq_some_iff.mp h
  unfold TaskUnique
  split at h
  · rename_i request hty hdata
    refine (rxRequest_growth h).congr fun _ => ?_
    simp [Task.request?, Task.reply?, hty, hdata]
  · rename_i reply hty hdata
    refine (rxReply_growth h).1.congr fun _ => ?_
    simp [Task.request?, Task.reply?, hty]
  · rename_i hty
    obtain rfl := Option.some.inj h
    refine (Growth.refl _ _).congr fun _ => ?_
    simp [Task.request?, Task.reply?, hty]
  · rename_i errpdu hty hdata
    obtain ⟨t, hnode, hg⟩ := rxError_growth h
    rw [hnode]
    refine hg.congr fun _ => ?_
    simp [Task.request?, Task.reply?, hty]
  · cases h
  · cases h
  · cases h
  · rename_i hreq hrep hack hrerr _ _ _
    obtain rfl := Option.some.inj h
    refine (Growth.refl _ _).congr fun _ => ?_
    cases hty : task.header.subType <;> simp_all [Task.request?, Task.reply?]

/-! ## The rest of a node's work -/

theorem ipPacketInput_spec (conf : NodeConf) (env : Env) (dev : RouteDev) (d : Datagram)
    (node : RouteNode) : ∃ timers tasks,
      ipPacketInput conf env dev d node = { node with timers := timers, tasks := tasks } := by
  unfold ipPacketInput
  split_ifs
  · exact ⟨_, _, rfl⟩
  all_goals
    dsimp only
    split
    · exact ⟨_, _, rfl⟩
    · exact ⟨_, _, rfl⟩

theorem sendHello_spec {node : RouteNode} {done : Done} (h : sendHello conf env node = some done) :
    ∃ timers, done.node = { node with timers := timers } := by
  unfold sendHello at h
  split_ifs at h
  · obtain rfl := Option.some.inj h
    exact ⟨_, rfl⟩
  · obtain rfl := Option.some.inj h
    exact ⟨_, rfl⟩
  · obtain ⟨p, -, h⟩ := Option.bind_eq_some_iff.mp h
    obtain ⟨my, -, h⟩ := Option.bind_eq_some_iff.mp h
    obtain rfl := Option.some.inj h
    exact ⟨_, rfl⟩

inductive MgmtEffect (conf : NodeConf) (env : Env) (task : RouteTask) (node : RouteNode) :
    Done → Prop
  | quiet {done : Done} (timers : List RouteTask) (h : done.node = { node with timers := timers }) :
      MgmtEffect conf env task node done
  | flush {done : Done} (floods : List RouteFlood) (timers : List RouteTask)
      (hfloods : floods = node.floods ∨
        floods = node.floods.filter fun flood => !timeBefore flood.lifetime env.now)
      (h : done.node = { node with
        routes := routeFlush env node.routes, floods := floods, timers := timers }) :
      MgmtEffect conf env task node done
  | drop (hty : task.subType = .neighbor) :
      MgmtEffect conf env task node (neighDelete conf env (some task.src) node)
  | request (dev : RouteDev) : MgmtEffect conf env task node (sendRequest conf env dev task node)

theorem handleMgmt_cases {task : RouteTask} {node : RouteNode} {done : Done}
    (h : handleMgmt conf env task node = some done) : MgmtEffect conf env task node done := by
  unfold handleMgmt at h
  split at h
  · obtain rfl := Option.some.inj h
    exact .flush _ _ (.inr rfl) rfl
  · obtain ⟨timers, hnode⟩ := sendHello_spec h
    exact .quiet timers hnode
  · rename_i hty
    obtain rfl := Option.some.inj h
    exact .drop hty
  · obtain rfl := Option.some.inj h
    exact .flush _ _ (.inl rfl) rfl
  · split at h
    · obtain rfl := Option.some.inj h
      exact .request _
    · obtain rfl := Option.some.inj h
      exact .quiet node.timers rfl
  · obtain rfl := Option.some.inj h
    exact .quiet node.timers rfl

theorem kthread_cases {node : RouteNode} {done : Done} (h : kthread conf env node = some done) :
    (node.tasks = [] ∧ done.node = node) ∨ ∃ task tasks, node.tasks = task :: tasks ∧
      handleTask conf env task { node with tasks := tasks } = some done := by
  unfold kthread at h
  split at h
  · rename_i htasks
    obtain rfl := Option.some.inj h
    exact .inl ⟨htasks, rfl⟩
  · rename_i task tasks htasks
    exact .inr ⟨task, tasks, htasks, h⟩

end Haodv
end WirelessMesh
