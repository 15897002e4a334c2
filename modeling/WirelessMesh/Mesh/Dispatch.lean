import WirelessMesh.Lib.ByteOrder
import WirelessMesh.Mesh.Ports
import Mathlib.Data.List.Induction

/-!
# Handing a frame to the packet handlers

`__meshif_receive_skb` gives a frame to the catch-all handlers and then to those of its
type. All of them get the same buffer: each call but the last is made with a reference of
its own, taken when the next handler is found, and the last one gets the reference of the
caller. A handler is a function on the buffer and on some world; it drops the reference it
was given. Reading or passing on a buffer without references has no defined result.
-/

namespace WirelessMesh
namespace Mesh

/-- `MESH_PACKET`, at the address `ptr`. A handler without a device takes all devices. -/
structure MeshPacket (σ : Type*) where
  ptr : ℕ
  type : BitVec 16
  dev : Option DevPtr
  func : σ → Skb → ℤ × σ × Skb

/-- `ETH_P_ALL`, in the order of the host. -/
def ethPAll : BitVec 16 := 0x0003

def packetHashSize : ℕ := 16

instance : NeZero packetHashSize := ⟨by decide⟩

variable {σ : Type*}

/-- The handler lists of the manager. A node has one link and so is on one list, once. -/
structure PacketTable (σ : Type*) where
  ptypeAll : List (MeshPacket σ)
  ptypeBase : Fin packetHashSize → List (MeshPacket σ)
  apart : ∀ hash, ((ptypeAll ++ ptypeBase hash).map MeshPacket.ptr).Nodup

namespace PacketTable

def empty : PacketTable σ where
  ptypeAll := []
  ptypeBase := fun _ => []
  apart := fun _ => List.nodup_nil

def Linked (table : PacketTable σ) (ptr : ℕ) : Prop :=
  ∃ hash, ptr ∈ (table.ptypeAll ++ table.ptypeBase hash).map MeshPacket.ptr

instance (table : PacketTable σ) (ptr : ℕ) : Decidable (table.Linked ptr) :=
  inferInstanceAs (Decidable (∃ hash, ptr ∈ (table.ptypeAll ++ table.ptypeBase hash).map
    MeshPacket.ptr))

end PacketTable

def packetHash (order : ByteOrder) (type : BitVec 16) : Fin packetHashSize :=
  Fin.ofNat packetHashSize ((ByteOrder.hton16 order type).toNat &&& 15)

/-- `swjtu_mesh_register_packet`, for a node that is on no list. -/
def meshRegisterPacket (order : ByteOrder) (table : PacketTable σ) (pt : MeshPacket σ)
    (hfree : ¬table.Linked pt.ptr) : PacketTable σ :=
  if pt.type = ByteOrder.hton16 order ethPAll then
    { ptypeAll := pt :: table.ptypeAll
      ptypeBase := table.ptypeBase
      apart := by
        intro hash
        exact List.nodup_cons.mpr ⟨fun hmem => hfree ⟨hash, hmem⟩, table.apart hash⟩ }
  else
    { ptypeAll := table.ptypeAll
      ptypeBase := Function.update table.ptypeBase (packetHash order pt.type)
        (pt :: table.ptypeBase (packetHash order pt.type))
      apart := by
        intro hash
        by_cases hhash : hash = packetHash order pt.type
        · subst hhash
          rw [Function.update_self, List.map_append, List.map_cons]
          refine List.nodup_middle.mpr (List.nodup_cons.mpr ?_)
          rw [← List.map_append]
          exact ⟨fun hmem => hfree ⟨_, hmem⟩, table.apart _⟩
        · rw [Function.update_of_ne hhash]
          exact table.apart hash }

/-! ## The call -/

/-- A frame on its way through the handlers: the buffer, its references, and what was done
so far. `raised` counts the references taken, `freed` the buffers freed here. -/
structure Inflight (σ : Type*) where
  world : σ
  skb : Skb
  users : ℕ
  raised : ℕ
  freed : ℕ
  calls : List ℕ
  ret : ℤ

/-- The frame as it comes in, with a reference of the caller and `others` besides. -/
def Inflight.arrive (world : σ) (skb : Skb) (others : ℕ) : Inflight σ :=
  ⟨world, skb, others + 1, 0, 0, [], meshRxDrop⟩

namespace Inflight

def atomicInc (f : Inflight σ) : Inflight σ :=
  { f with users := f.users + 1, raised := f.raised + 1 }

def call (f : Inflight σ) (pt : MeshPacket σ) : Option (Inflight σ) :=
  if f.users = 0 then none
  else
    let (ret, world, skb) := pt.func f.world f.skb
    some { f with world, skb, users := f.users - 1, calls := f.calls ++ [pt.ptr], ret }

def kfreeSkb (f : Inflight σ) : Option (Inflight σ) :=
  if f.users = 0 then none
  else some { f with users := f.users - 1, freed := f.freed + 1, ret := meshRxDrop }

end Inflight

def matchesDev (pt : MeshPacket σ) (dev : Option DevPtr) : Bool := pt.dev.isNone || pt.dev == dev

/-- One of the two loops: `test` reads the handler, the device is read from the buffer. The
handler found last waits in `ptPrev`. -/
def receiveLoop (test : MeshPacket σ → Bool) : List (MeshPacket σ) → Option (MeshPacket σ) →
    Inflight σ → Option (Option (MeshPacket σ) × Inflight σ)
  | [], ptPrev, f => some (ptPrev, f)
  | ptype :: rest, ptPrev, f =>
      if f.users = 0 then none
      else if test ptype && matchesDev ptype f.skb.dev then
        match ptPrev with
        | none => receiveLoop test rest (some ptype) f
        | some prev => do
            let f ← f.atomicInc.call prev
            receiveLoop test rest (some ptype) f
      else receiveLoop test rest ptPrev f

/-- The end of the function: the handler found last gets the reference of the caller. -/
def lastDelivery (ptPrev : Option (MeshPacket σ)) (f : Inflight σ) : Option (Inflight σ) :=
  match ptPrev with
  | some prev => f.call prev
  | none => f.kfreeSkb

/-- `__meshif_receive_skb`, for a frame of the given `skb->protocol`. -/
def PacketTable.meshifReceiveSkb (order : ByteOrder) (table : PacketTable σ) (type : BitVec 16)
    (f : Inflight σ) : Option (Inflight σ) := do
  let (ptPrev, f) ← receiveLoop (fun _ => true) table.ptypeAll none f
  let (ptPrev, f) ← receiveLoop (fun ptype => ptype.type == type)
    (table.ptypeBase (packetHash order type)) ptPrev f
  lastDelivery ptPrev f

/-! ## References -/

section References

variable (test : MeshPacket σ → Bool)

def Inflight.serve (f : Inflight σ) (pt : MeshPacket σ) : Inflight σ :=
  { f with
    world := (pt.func f.world f.skb).2.1
    skb := (pt.func f.world f.skb).2.2
    raised := f.raised + 1
    calls := f.calls ++ [pt.ptr]
    ret := (pt.func f.world f.skb).1 }

@[simp] theorem Inflight.call_atomicInc (f : Inflight σ) (pt : MeshPacket σ) :
    f.atomicInc.call pt = some (f.serve pt) := by
  simp [call, atomicInc, serve]

def ptrs (ptPrev : Option (MeshPacket σ)) : List ℕ := ptPrev.toList.map MeshPacket.ptr

/-- The loop calls each handler it picks, in order, the one picked last being left over; it
takes a reference for each call. -/
structure Picks (hs : List (MeshPacket σ)) (ptPrev : Option (MeshPacket σ)) (f : Inflight σ)
    (ptPrev' : Option (MeshPacket σ)) (f' : Inflight σ) (picked : List (MeshPacket σ)) : Prop where
  sublist : picked.Sublist hs
  calls : f'.calls ++ ptrs ptPrev' = f.calls ++ ptrs ptPrev ++ picked.map MeshPacket.ptr
  raised : f'.raised + f.calls.length = f.raised + f'.calls.length
  users : f'.users = f.users
  freed : f'.freed = f.freed
  waits : ptPrev' = none → ptPrev = none ∧ picked = []

theorem receiveLoop_picks (hs : List (MeshPacket σ)) (ptPrev : Option (MeshPacket σ))
    {f : Inflight σ} (hf : 0 < f.users) : ∃ ptPrev' f' picked,
    receiveLoop test hs ptPrev f = some (ptPrev', f') ∧ Picks hs ptPrev f ptPrev' f' picked := by
  induction hs generalizing ptPrev f with
  | nil => exact ⟨ptPrev, f, [], rfl, .refl _, by simp, rfl, rfl, rfl, fun hnone => ⟨hnone, rfl⟩⟩
  | cons h hs ih =>
      simp only [receiveLoop, if_neg hf.ne']
      by_cases hpick : (test h && matchesDev h f.skb.dev) = true
      · rw [if_pos hpick]
        cases ptPrev with
        | none =>
            obtain ⟨p', f', picked, hloop, hpicks⟩ := ih (some h) hf
            refine ⟨p', f', h :: picked, hloop, hpicks.sublist.cons_cons h, ?_, hpicks.raised,
              hpicks.users, hpicks.freed, fun hnone => absurd (hpicks.waits hnone).1 (by simp)⟩
            rw [hpicks.calls]
            simp [ptrs]
        | some prev =>
            have hserve : 0 < (f.serve prev).users := hf
            obtain ⟨p', f', picked, hloop, hpicks⟩ := ih (some h) hserve
            refine ⟨p', f', h :: picked, by simpa using hloop, hpicks.sublist.cons_cons h, ?_, ?_,
              hpicks.users, hpicks.freed, fun hnone => absurd (hpicks.waits hnone).1 (by simp)⟩
            · rw [hpicks.calls]
              simp [ptrs, Inflight.serve]
            · have hraised := hpicks.raised
              simp only [Inflight.serve, List.length_append, List.length_singleton] at hraised
              omega
      · rw [if_neg hpick]
        obtain ⟨p', f', picked, hloop, hpicks⟩ := ih ptPrev hf
        exact ⟨p', f', picked, hloop, { hpicks with sublist := hpicks.sublist.cons h }⟩

theorem receiveLoop_append (xs ys : List (MeshPacket σ)) (ptPrev : Option (MeshPacket σ))
    (f : Inflight σ) : receiveLoop test (xs ++ ys) ptPrev f =
      (receiveLoop test xs ptPrev f).bind fun r => receiveLoop test ys r.1 r.2 := by
  induction xs generalizing ptPrev f with
  | nil => rfl
  | cons h xs ih =>
      simp only [List.cons_append, receiveLoop]
      split_ifs
      · rfl
      · cases ptPrev with
        | none => exact ih _ _
        | some prev =>
            simp only [Inflight.call_atomicInc, Option.bind_eq_bind, Option.bind_some]
            exact ih _ _
      · exact ih _ _

theorem receiveLoop_filter (hs : List (MeshPacket σ)) (ptPrev : Option (MeshPacket σ))
    {f : Inflight σ} (hf : 0 < f.users) : receiveLoop test hs ptPrev f =
      receiveLoop (fun _ => true) (hs.filter test) ptPrev f := by
  induction hs generalizing ptPrev f with
  | nil => rfl
  | cons h hs ih =>
      cases htest : test h with
      | false =>
          rw [List.filter_cons_of_neg (by simp [htest])]
          simpa [receiveLoop, hf.ne', htest] using ih ptPrev hf
      | true =>
          rw [List.filter_cons_of_pos htest]
          simp only [receiveLoop, if_neg hf.ne', htest]
          split_ifs
          · cases ptPrev with
            | none => exact ih _ hf
            | some prev =>
                have hserve : 0 < (f.serve prev).users := hf
                simp only [Inflight.call_atomicInc, Option.bind_eq_bind, Option.bind_some]
                exact ih _ hserve
          · exact ih _ hf

end References

/-! ## Who is called -/

def PacketTable.handlers (order : ByteOrder) (table : PacketTable σ) (type : BitVec 16) :
    List (MeshPacket σ) :=
  table.ptypeAll ++ (table.ptypeBase (packetHash order type)).filter (·.type == type)

theorem PacketTable.nodup_handlers (order : ByteOrder) (table : PacketTable σ) (type : BitVec 16) :
    ((table.handlers order type).map MeshPacket.ptr).Nodup := by
  refine (table.apart (packetHash order type)).sublist (List.Sublist.map _ ?_)
  exact (List.Sublist.refl _).append List.filter_sublist

theorem PacketTable.meshifReceiveSkb_eq (order : ByteOrder) (table : PacketTable σ)
    (type : BitVec 16) {f : Inflight σ} (hf : 0 < f.users) :
    table.meshifReceiveSkb order type f =
      (receiveLoop (fun _ => true) (table.handlers order type) none f).bind
        fun r => lastDelivery r.1 r.2 := by
  obtain ⟨ptPrev, f', picked, hloop, hpicks⟩ :=
    receiveLoop_picks (fun _ => true) table.ptypeAll none hf
  have hf' : 0 < f'.users := hpicks.users ▸ hf
  rw [handlers, receiveLoop_append, hloop, Option.bind_some]
  simp only [meshifReceiveSkb, hloop, Option.bind_eq_bind, Option.bind_some]
  rw [receiveLoop_filter _ _ _ hf']

/-- What is asked of one frame: the matching handlers are called once each and in order, with
`n - 1` references taken for `n` of them, and a frame for nobody is freed once. -/
structure Dispatched (matching : List (MeshPacket σ)) (others : ℕ) (done : Inflight σ) : Prop where
  calls : done.calls = matching.map MeshPacket.ptr
  raised : done.raised = matching.length - 1
  freed : done.freed = if matching = [] then 1 else 0
  users : done.users = others

/-- Whenever a handler's device is compared, the handlers called before have left the buffer
with a device that compares like that of the frame. -/
def Undisturbed (hs : List (MeshPacket σ)) (f : Inflight σ) : Prop :=
  ∀ pre h post, hs = pre ++ h :: post →
    matchesDev h ((pre.filter (matchesDev · f.skb.dev)).dropLast.foldl Inflight.serve f).skb.dev =
      matchesDev h f.skb.dev

theorem receive_accounting (hs : List (MeshPacket σ)) (world : σ) (skb : Skb) (others : ℕ) :
    ∃ ptPrev f done, receiveLoop (fun _ => true) hs none (.arrive world skb others) =
        some (ptPrev, f) ∧ lastDelivery ptPrev f = some done ∧ done.calls = f.calls ++ ptrs ptPrev ∧
      done.raised = done.calls.length - 1 ∧ done.freed = (if done.calls = [] then 1 else 0) ∧
      done.users = others := by
  have harrive : 0 < (Inflight.arrive world skb others).users := Nat.succ_pos others
  obtain ⟨ptPrev, f, picked, hloop, hpicks⟩ := receiveLoop_picks (fun _ => true) hs none harrive
  have husers : f.users = others + 1 := hpicks.users
  have hraised : f.raised = f.calls.length := by
    have hsum := hpicks.raised
    simpa [Inflight.arrive] using hsum
  cases ptPrev with
  | none =>
      have hnobody : f.calls = [] := by
        have hcalls := hpicks.calls
        simpa [ptrs, Inflight.arrive, (hpicks.waits rfl).2] using hcalls
      have hfreed : f.freed = 0 := hpicks.freed
      refine ⟨none, f, { f with users := others, freed := 1, ret := meshRxDrop }, hloop, ?_⟩
      simp [lastDelivery, Inflight.kfreeSkb, husers, ptrs, hraised, hnobody, hfreed]
  | some prev =>
      have hfreed : f.freed = 0 := hpicks.freed
      refine ⟨some prev, f, { f.serve prev with users := others, raised := f.raised }, hloop, ?_⟩
      simp [lastDelivery, Inflight.call, Inflight.serve, husers, ptrs, hraised, hfreed]

section Dispatch

variable {hs pre post : List (MeshPacket σ)} {h : MeshPacket σ} {f : Inflight σ}

theorem foldl_serve_calls (ms : List (MeshPacket σ)) (f : Inflight σ) :
    (ms.foldl Inflight.serve f).calls = f.calls ++ ms.map MeshPacket.ptr := by
  induction ms generalizing f with
  | nil => simp
  | cons m ms ih =>
      rw [List.foldl_cons, ih]
      simp [Inflight.serve]

theorem foldl_serve_users (ms : List (MeshPacket σ)) (f : Inflight σ) :
    (ms.foldl Inflight.serve f).users = f.users := by
  induction ms generalizing f with
  | nil => rfl
  | cons m ms ih => exact ih (f.serve m)

theorem Undisturbed.receiveLoop_eq (hf : 0 < f.users) (hsame : Undisturbed hs f) :
    receiveLoop (fun _ => true) hs none f = some ((hs.filter (matchesDev · f.skb.dev)).getLast?,
      (hs.filter (matchesDev · f.skb.dev)).dropLast.foldl Inflight.serve f) := by
  induction hs using List.reverseRecOn with
  | nil => rfl
  | append_singleton xs h ih =>
      have hxs : Undisturbed xs f := by
        intro pre g post hsplit
        exact hsame pre g (post ++ [h]) (by simp [hsplit])
      have hpick := hsame xs h [] rfl
      rw [receiveLoop_append, ih hxs, Option.bind_some]
      have husers := foldl_serve_users (xs.filter (matchesDev · f.skb.dev)).dropLast f
      simp only [receiveLoop, husers, if_neg hf.ne', hpick, Bool.true_and]
      cases hm : matchesDev h f.skb.dev with
      | false => simp [List.filter_append, hm]
      | true =>
          have hfilter : (xs ++ [h]).filter (matchesDev · f.skb.dev) =
              xs.filter (matchesDev · f.skb.dev) ++ [h] := by simp [List.filter_append, hm]
          rw [hfilter, if_pos rfl, List.getLast?_concat, List.dropLast_concat]
          rcases List.eq_nil_or_concat (xs.filter (matchesDev · f.skb.dev)) with hnil | ⟨ms, m, hms⟩
          · simp [hnil]
          · rw [hms, List.concat_eq_append]
            simp

theorem mem_calls_of_found {ptPrev last : Option (MeshPacket σ)} {mid g : Inflight σ}
    (hmid : 0 < mid.users) (hfound : matchesDev h mid.skb.dev = true)
    (hloop : receiveLoop (fun _ => true) (h :: post) ptPrev mid = some (last, g)) :
    h.ptr ∈ g.calls ++ ptrs last := by
  -- After `h` the loop goes on with `h` waiting.
  have hwaits : ∃ mid' : Inflight σ, 0 < mid'.users ∧
      receiveLoop (fun _ => true) post (some h) mid' = some (last, g) := by
    simp only [receiveLoop, if_neg hmid.ne', hfound, Bool.and_self, if_true] at hloop
    cases ptPrev with
    | none => exact ⟨mid, hmid, hloop⟩
    | some prev => exact ⟨mid.serve prev, hmid, by simpa using hloop⟩
  obtain ⟨mid', hmid', hrest⟩ := hwaits
  obtain ⟨last', g', picked, hloop', hpicks⟩ :=
    receiveLoop_picks (fun _ => true) post (some h) hmid'
  obtain ⟨rfl, rfl⟩ := Prod.mk.inj (Option.some.inj (hloop'.symm.trans hrest))
  rw [hpicks.calls]
  simp [ptrs]

theorem calls_subset_of_missed {ptPrev last : Option (MeshPacket σ)} {mid g : Inflight σ}
    (hmid : 0 < mid.users) (hmissed : matchesDev h mid.skb.dev = false)
    (hloop : receiveLoop (fun _ => true) (h :: post) ptPrev mid = some (last, g)) :
    g.calls ++ ptrs last ⊆ mid.calls ++ ptrs ptPrev ++ post.map MeshPacket.ptr := by
  simp only [receiveLoop, if_neg hmid.ne', hmissed, Bool.and_false, Bool.false_eq_true,
    if_false] at hloop
  obtain ⟨last', g', picked, hloop', hpicks⟩ :=
    receiveLoop_picks (fun _ => true) post ptPrev hmid
  obtain ⟨rfl, rfl⟩ := Prod.mk.inj (Option.some.inj (hloop'.symm.trans hloop))
  rw [hpicks.calls]
  exact ((List.Sublist.refl _).append (hpicks.sublist.map _)).subset

theorem undisturbed_of_calls {last : Option (MeshPacket σ)} {g : Inflight σ}
    (hf : 0 < f.users) (hnone : f.calls = []) (hnodup : (hs.map MeshPacket.ptr).Nodup)
    (hloop : receiveLoop (fun _ => true) hs none f = some (last, g))
    (hcalls : g.calls ++ ptrs last =
      (hs.filter (matchesDev · f.skb.dev)).map MeshPacket.ptr) :
    Undisturbed hs f := by
  intro pre h post hsplit
  -- By induction on the handlers before `h`: none of them was compared differently.
  induction hn : pre.length using Nat.strongRecOn generalizing pre h post with
  | ind n ih =>
      have hpre : Undisturbed pre f := by
        intro xs k ys hxs
        refine ih xs.length ?_ xs k (ys ++ h :: post) (by simp [hsplit, hxs]) rfl
        simp [← hn, hxs]
      subst hsplit
      have hother : h.ptr ∉ (pre ++ post).map MeshPacket.ptr := by
        rw [List.map_append, List.map_cons, List.nodup_middle, ← List.map_append] at hnodup
        exact (List.nodup_cons.mp hnodup).1
      obtain ⟨mid, g₀, picked, hloop₀, hpicks⟩ := receiveLoop_picks (fun _ => true) pre none hf
      have hsame := Option.some.inj (hloop₀.symm.trans (hpre.receiveLoop_eq hf))
      obtain ⟨hmid, hg₀⟩ := Prod.mk.inj hsame
      rw [receiveLoop_append, hloop₀, Option.bind_some] at hloop
      have husers : 0 < g₀.users := hpicks.users ▸ hf
      rw [← hg₀]
      cases hfound : matchesDev h g₀.skb.dev with
      | true =>
          have hmem := mem_calls_of_found husers hfound hloop
          cases hm : matchesDev h f.skb.dev with
          | true => rfl
          | false =>
              rw [hcalls, List.filter_append, List.filter_cons_of_neg (by simp [hm]),
                ← List.filter_append] at hmem
              exact absurd ((List.filter_sublist.map _).subset hmem) hother
      | false =>
          have hsub := calls_subset_of_missed husers hfound hloop
          cases hm : matchesDev h f.skb.dev with
          | false => rfl
          | true =>
              have hmem : h.ptr ∈ g.calls ++ ptrs last := by
                rw [hcalls]
                exact List.mem_map_of_mem (List.mem_filter.mpr ⟨by simp, hm⟩)
              have hthere := hsub hmem
              rw [hpicks.calls, hnone, ptrs, Option.toList_none, List.map_nil, List.append_nil,
                List.nil_append, ← List.map_append] at hthere
              exact absurd (((hpicks.sublist.append (.refl post)).map _).subset hthere) hother

end Dispatch

/-- Every matching handler is called once, with its reference, exactly when no handler before
has changed the device of the buffer to one that compares differently. -/
theorem dispatched_iff_undisturbed (order : ByteOrder) (table : PacketTable σ) (type : BitVec 16)
    (world : σ) (skb : Skb) (others : ℕ) :
    ∃ done, table.meshifReceiveSkb order type (.arrive world skb others) = some done ∧
      (Dispatched ((table.handlers order type).filter (matchesDev · skb.dev)) others done ↔
        Undisturbed (table.handlers order type) (.arrive world skb others)) := by
  have harrive : 0 < (Inflight.arrive world skb others).users := Nat.succ_pos others
  obtain ⟨last, f, done, hloop, hlast, hcalls, hraised, hfreed, husers⟩ :=
    receive_accounting (table.handlers order type) world skb others
  have hrun := table.meshifReceiveSkb_eq order type harrive
  rw [hloop, Option.bind_some, hlast] at hrun
  refine ⟨done, hrun, ?_, ?_⟩
  · intro hdone
    exact undisturbed_of_calls harrive rfl (table.nodup_handlers order type) hloop
      (hcalls.symm.trans hdone.calls)
  · intro hsame
    obtain ⟨rfl, rfl⟩ :=
      Prod.mk.inj (Option.some.inj (hloop.symm.trans (hsame.receiveLoop_eq harrive)))
    have hall : done.calls =
        ((table.handlers order type).filter (matchesDev · skb.dev)).map MeshPacket.ptr := by
      rw [hcalls, foldl_serve_calls, ptrs]
      change [] ++ _ ++ _ = _
      rw [List.nil_append, ← List.map_append]
      rcases List.eq_nil_or_concat
        ((table.handlers order type).filter (matchesDev · skb.dev)) with hnil | ⟨ms, m, hms⟩
      · simp [Inflight.arrive, hnil]
      · simp [Inflight.arrive, hms]
    refine ⟨hall, ?_, ?_, husers⟩
    · rw [hraised, hall, List.length_map]
    · rw [hfreed, hall]
      simp only [List.map_eq_nil_iff]

/-! ## The forwarding handler -/

/-- The device of the frame's own buffer after the traffic of a call: a buffer that is sent
gets the device it goes out by. -/
def Traffic.devOfFrame (traffic : Traffic) (dev : Option DevPtr) : Option DevPtr :=
  ((traffic.sent.find? (·.1 == 0)).map Prod.snd).or dev

/-- `mesh_fwd_packet_type`. A device without a forwarding table stops the kernel; here its
frames are left alone. -/
def meshFwdPacketType (order : ByteOrder) (env : Env) (cloneOk : ℕ → Bool) :
    MeshPacket MeshMgr where
  ptr := 1
  type := ByteOrder.hton16 order ethPAll
  dev := none
  func := fun mgr skb =>
    match handleFrame env cloneOk mgr skb skb.dev with
    | some (ret, mgr, traffic) => (ret, mgr, { skb with dev := traffic.devOfFrame skb.dev })
    | none => (meshRxDrop, mgr, skb)

def fwdAlone (order : ByteOrder) (env : NodeEnv) : PacketTable MeshMgr :=
  meshRegisterPacket order .empty (meshFwdPacketType order env.toEnv env.cloneOk)
    (by simp [PacketTable.Linked, PacketTable.empty])

theorem meshifReceiveSkb_fwdAlone (order : ByteOrder) (type : BitVec 16) {env : NodeEnv}
    {mgr mgr' : MeshMgr} {skb : Skb} (others : ℕ)
    (hreceive : meshifReceiveSkb env mgr skb = some mgr') :
    ∃ done, (fwdAlone order env).meshifReceiveSkb order type (.arrive mgr skb others) =
      some done ∧ done.world = mgr' ∧ done.calls = [1] ∧ done.users = others := by
  obtain ⟨⟨ret, mgr'', traffic⟩, hframe, rfl⟩ := Option.map_eq_some_iff.mp hreceive
  refine ⟨⟨mgr'', { skb with dev := traffic.devOfFrame skb.dev }, others, 0, 0, [1], ret⟩, ?_,
    rfl, rfl, rfl⟩
  have hall : (fwdAlone order env).ptypeAll = [meshFwdPacketType order env.toEnv env.cloneOk] := by
    simp [fwdAlone, meshRegisterPacket, meshFwdPacketType, PacketTable.empty]
  have hbase : (fwdAlone order env).ptypeBase (packetHash order type) = [] := by
    simp [fwdAlone, meshRegisterPacket, meshFwdPacketType, PacketTable.empty]
  simp [PacketTable.meshifReceiveSkb, hall, hbase, receiveLoop, lastDelivery, Inflight.call,
    Inflight.arrive, matchesDev, meshFwdPacketType, hframe]

def ipTap (order : ByteOrder) (ptr : ℕ) (dev : Option DevPtr) : MeshPacket MeshMgr where
  ptr := ptr
  type := ByteOrder.hton16 order 0x0800
  dev := dev
  func := fun mgr skb => (0, mgr, skb)

/-- The manager registers its handler first; two more are registered after it, one of them for
port 1 only. -/
def tapped : PacketTable MeshMgr :=
  let fwd := meshFwdPacketType .little ⟨0, true⟩ fun _ => true
  let table := meshRegisterPacket .little .empty fwd (by decide)
  let table := meshRegisterPacket .little table (ipTap .little 2 (some 1)) (by decide)
  meshRegisterPacket .little table (ipTap .little 3 none) (by decide)

def crossing : Inflight MeshMgr :=
  .arrive (learn ⟨0, true⟩ twoPorts 2 (stationMac 9)) ⟨some 1, stationMac 9, stationMac 7⟩ 0

/-- The frame is sent on by port 2; after that the handler for port 1 does not find its device
in the buffer. -/
theorem handler_missed : ∃ done, tapped.meshifReceiveSkb .little 0x0008 crossing = some done ∧
    ((tapped.handlers .little 0x0008).filter (matchesDev · crossing.skb.dev)).map
      MeshPacket.ptr = [1, 3, 2] ∧ done.calls = [1, 3] ∧
    ¬Dispatched ((tapped.handlers .little 0x0008).filter (matchesDev · crossing.skb.dev)) 0
      done := by
  have hrun : (tapped.meshifReceiveSkb .little 0x0008 crossing).any
      (fun done => done.calls == [1, 3]) = true := by decide +kernel
  have hmatch : ((tapped.handlers .little 0x0008).filter (matchesDev · crossing.skb.dev)).map
      MeshPacket.ptr = [1, 3, 2] := by decide +kernel
  obtain ⟨done, hdone, hcalls⟩ := (Option.any_eq_true _ _).mp hrun
  have hcalls' : done.calls = [1, 3] := by simpa using hcalls
  refine ⟨done, hdone, hmatch, hcalls', ?_⟩
  intro h
  have heq := h.calls
  rw [hcalls', hmatch] at heq
  exact absurd heq (by decide)

end Mesh
end WirelessMesh
