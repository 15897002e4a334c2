import WirelessMesh.Aodv.PacketQueue
import WirelessMesh.Lib.Lists
import WirelessMesh.Lib.Runs
import Mathlib.Data.List.Perm.Basic

/-!
# Runs of the packet queue

The queue of `packet_queue.c` with the counter `len`, all its operations, and the packets
as netfilter hands them over: a packet comes from one of the five hooks, and only at the
post-routing hook does `ipq_enqueue` note its destination. At the others the field is what
the allocation left there.
-/

namespace WirelessMesh
namespace Aodv

open Routes Machine

inductive NfHook where
  | preRouting
  | localIn
  | forward
  | localOut
  | postRouting
  deriving DecidableEq, Repr

/-- What netfilter says about a packet: its hook and devices, and the destination in its
header. -/
structure NfPacket where
  hook : NfHook
  indev : Option ℕ
  outdev : Option ℕ
  daddr : U32
  deriving DecidableEq, Repr

/-- `ipq_queue_t` with its counter. -/
structure CountedQueue extends IpqQueue where
  len : ℤ
  deriving DecidableEq, Repr

namespace CountedQueue

/-- `ipq_create_queue`. -/
def create (maxlen : ℕ) : CountedQueue where
  list := []
  maxlen := maxlen
  flushing := false
  terminate := false
  len := 0

/-- The element `ipq_enqueue` makes; `stale` is what the allocation left in `rt_info.daddr`. -/
def element (pkt : ℕ → NfPacket) (stale : U32) (skb : ℕ) : IpqElement :=
  ⟨skb, if (pkt skb).hook = .postRouting then (pkt skb).daddr else stale⟩

/-- `ipq_enqueue`, called by netfilter with the queue it was given. -/
def ipqEnqueue (pkt : ℕ → NfPacket) (room : Bool) (stale : U32) (skb : ℕ) (q : CountedQueue) :
    CountedQueue × ℤ :=
  if !room then (q, enomem)
  else if q.maxlen ≤ q.len then (q, ebusy)
  else if q.flushing || q.terminate then (q, ebusy)
  else ({ q with list := element pkt stale skb :: q.list, len := q.len + 1 }, q.len + 1)

def ipqDequeue (cmp : IpqElement → Bool) (q : CountedQueue) : Option (IpqElement × CountedQueue) :=
  (dequeueLast cmp q.list).map fun found => (found.1, { q with list := found.2, len := q.len - 1 })

/-- The loops that take packets out and give them back with a verdict. Each turn shortens the
list, so its length bounds the turns. -/
def drain (cmp : IpqElement → Bool) (verdict : Verdict) : ℕ → CountedQueue →
    CountedQueue × List (IpqElement × Verdict)
  | 0, q => (q, [])
  | fuel + 1, q =>
      match ipqDequeue cmp q with
      | none => (q, [])
      | some (e, q) =>
          let (q, out) := drain cmp verdict fuel q
          (q, (e, verdict) :: out)

def devCmp (pkt : ℕ → NfPacket) (ifindex : ℕ) (e : IpqElement) : Bool :=
  (pkt e.skb).indev == some ifindex || (pkt e.skb).outdev == some ifindex

def ipCmp (ip : U32) (e : IpqElement) : Bool := e.daddr == ip

def ipqDevDrop (pkt : ℕ → NfPacket) (ifindex : ℕ) (q : CountedQueue) :
    CountedQueue × List (IpqElement × Verdict) :=
  drain (devCmp pkt ifindex) .drop q.list.length q

def ipqSendIp (ip : U32) (q : CountedQueue) : CountedQueue × List (IpqElement × Verdict) :=
  drain (ipCmp ip) .accept q.list.length q

def ipqDropIp (ip : U32) (q : CountedQueue) : CountedQueue × List (IpqElement × Verdict) :=
  drain (ipCmp ip) .drop q.list.length q

def ipqFlush (q : CountedQueue) : CountedQueue × List (IpqElement × Verdict) :=
  let (q, out) := drain (fun _ => true) .drop q.list.length { q with flushing := true }
  ({ q with flushing := false }, out)

/-! ## What one operation does -/

theorem ipqEnqueue_cases (q : CountedQueue) (pkt : ℕ → NfPacket) (room : Bool) (stale : U32)
    (skb : ℕ) :
    ((q.ipqEnqueue pkt room stale skb).1 = q ∧ (q.ipqEnqueue pkt room stale skb).2 < 0) ∨
      (q.len < q.maxlen ∧ q.ipqEnqueue pkt room stale skb =
        ({ q with list := element pkt stale skb :: q.list, len := q.len + 1 }, q.len + 1)) := by
  have hneg : enomem < 0 ∧ ebusy < 0 := by decide
  unfold ipqEnqueue
  split_ifs with hroom hfull
  · exact .inl ⟨rfl, hneg.1⟩
  · exact .inl ⟨rfl, hneg.2⟩
  · exact .inl ⟨rfl, hneg.2⟩
  · exact .inr ⟨not_le.mp hfull, rfl⟩

/-- All packets that match, the oldest first, and the queue without them. -/
def takeOut (cmp : IpqElement → Bool) (verdict : Verdict) (q : CountedQueue) :
    CountedQueue × List (IpqElement × Verdict) :=
  ({ q with
      list := q.list.filter fun e => !cmp e
      len := q.len - (q.list.filter cmp).length },
    (q.list.filter cmp).reverse.map fun e => (e, verdict))

theorem takeOut_of_none {cmp : IpqElement → Bool} {q : CountedQueue}
    (hno : ∀ e ∈ q.list, cmp e = false) (verdict : Verdict) : q.takeOut cmp verdict = (q, []) := by
  have hout : q.list.filter cmp = [] := by simpa using hno
  have hkeep : q.list.filter (fun e => !cmp e) = q.list := by simpa using hno
  rw [takeOut, hout, hkeep]
  simp

theorem drain_eq_takeOut (cmp : IpqElement → Bool) (verdict : Verdict) (fuel : ℕ)
    (q : CountedQueue) (hfuel : q.list.length ≤ fuel) :
    drain cmp verdict fuel q = q.takeOut cmp verdict := by
  induction fuel generalizing q with
  | zero =>
      have hempty : q.list = [] := List.length_eq_zero_iff.mp (Nat.le_zero.mp hfuel)
      exact (takeOut_of_none (by simp [hempty]) verdict).symm
  | succ fuel ih =>
      rw [drain, ipqDequeue]
      cases hfound : dequeueLast cmp q.list with
      | none => exact (takeOut_of_none (dequeueLast_none hfound) verdict).symm
      | some found =>
          obtain ⟨e, rest⟩ := found
          obtain ⟨-, hlen, hkeep, hout⟩ := dequeueLast_some hfound
          rw [Option.map_some]
          simp only [ih { q with list := rest, len := q.len - 1 } (by simp only; omega), takeOut,
            hkeep, hout, List.length_append, List.length_singleton, List.reverse_append,
            List.reverse_singleton, List.singleton_append, Nat.cast_add, Nat.cast_one]
          congr 2
          omega

theorem ipqSendIp_eq_takeOut (ip : U32) (q : CountedQueue) :
    q.ipqSendIp ip = q.takeOut (ipCmp ip) .accept :=
  drain_eq_takeOut _ _ _ _ (le_refl _)

theorem ipqDropIp_eq_takeOut (ip : U32) (q : CountedQueue) :
    q.ipqDropIp ip = q.takeOut (ipCmp ip) .drop :=
  drain_eq_takeOut _ _ _ _ (le_refl _)

theorem ipqDevDrop_eq_takeOut (pkt : ℕ → NfPacket) (ifindex : ℕ) (q : CountedQueue) :
    q.ipqDevDrop pkt ifindex = q.takeOut (devCmp pkt ifindex) .drop :=
  drain_eq_takeOut _ _ _ _ (le_refl _)

theorem ipqFlush_eq_takeOut (q : CountedQueue) :
    q.ipqFlush = { q with flushing := false }.takeOut (fun _ => true) .drop := by
  have hloop := drain_eq_takeOut (fun _ => true) .drop q.list.length { q with flushing := true }
    (le_refl _)
  simp only [ipqFlush, hloop, takeOut]

end CountedQueue

/-! ## The runs -/

/-- The operations; an allocation may fail, and leaves old contents behind. -/
inductive QueueCall where
  | enqueue (skb : ℕ) (room : Bool) (stale : U32)
  | sendIp (ip : U32)
  | dropIp (ip : U32)
  | devDrop (ifindex : ℕ)
  | flush
  deriving DecidableEq, Repr

/-- The queue, the packets it accepted, in order, and those given back to netfilter. -/
structure QueueRun where
  q : CountedQueue
  accepted : List ℕ
  reinjected : List (ℕ × Verdict)
  deriving DecidableEq, Repr

namespace QueueRun

def start (maxlen : ℕ) : QueueRun := ⟨.create maxlen, [], []⟩

def giveBack (s : QueueRun) (done : CountedQueue × List (IpqElement × Verdict)) : QueueRun :=
  { s with q := done.1, reinjected := s.reinjected ++ done.2.map fun r => (r.1.skb, r.2) }

def step (pkt : ℕ → NfPacket) : QueueCall → QueueRun → Option QueueRun
  | .enqueue skb room stale, s =>
      let done := s.q.ipqEnqueue pkt room stale skb
      some { s with
        q := done.1
        accepted := if 0 ≤ done.2 then s.accepted ++ [skb] else s.accepted }
  | .sendIp ip, s => some (s.giveBack (s.q.ipqSendIp ip))
  | .dropIp ip, s => some (s.giveBack (s.q.ipqDropIp ip))
  | .devDrop ifindex, s => some (s.giveBack (s.q.ipqDevDrop pkt ifindex))
  | .flush, s => some (s.giveBack s.q.ipqFlush)

theorem step_cases {pkt : ℕ → NfPacket} {c : QueueCall} {s s' : QueueRun}
    (hstep : step pkt c s = some s') :
    (∃ skb room stale, c = .enqueue skb room stale) ∨
      ∃ cmp verdict flushing, s' = s.giveBack ({ s.q with flushing }.takeOut cmp verdict) := by
  cases c with
  | enqueue skb room stale => exact .inl ⟨skb, room, stale, rfl⟩
  | sendIp ip =>
      obtain rfl := Option.some.inj hstep
      exact .inr ⟨_, _, s.q.flushing, by rw [CountedQueue.ipqSendIp_eq_takeOut]⟩
  | dropIp ip =>
      obtain rfl := Option.some.inj hstep
      exact .inr ⟨_, _, s.q.flushing, by rw [CountedQueue.ipqDropIp_eq_takeOut]⟩
  | devDrop ifindex =>
      obtain rfl := Option.some.inj hstep
      exact .inr ⟨_, _, s.q.flushing, by rw [CountedQueue.ipqDevDrop_eq_takeOut]⟩
  | flush =>
      obtain rfl := Option.some.inj hstep
      exact .inr ⟨_, _, false, by rw [CountedQueue.ipqFlush_eq_takeOut]⟩

end QueueRun

/-- What holds of the queue between calls: the counter counts, the maximum is kept, every
accepted packet was given back or waits, once, and the packets wait as they came. -/
structure QueueOk (maxlen : ℕ) (s : QueueRun) : Prop where
  counts : s.q.len = s.q.list.length
  bounded : s.q.list.length ≤ maxlen
  conserved : s.accepted.Perm (s.reinjected.map Prod.fst ++ s.q.list.map IpqElement.skb)
  order : (s.q.list.reverse.map IpqElement.skb).Sublist s.accepted
  maximum : s.q.maxlen = maxlen

section Ok

variable {maxlen : ℕ} {s : QueueRun}

theorem QueueOk.giveBack (h : QueueOk maxlen s) (cmp : IpqElement → Bool) (verdict : Verdict)
    (flushing : Bool) :
    QueueOk maxlen (s.giveBack ({ s.q with flushing }.takeOut cmp verdict)) where
  counts := by
    have hsplit := s.q.list.length_eq_length_filter_add cmp
    simp only [QueueRun.giveBack, CountedQueue.takeOut, h.counts]
    omega
  bounded := (List.length_filter_le _ _).trans h.bounded
  conserved := by
    have hparts : (s.q.list.filter cmp ++ s.q.list.filter fun e => !cmp e).Perm s.q.list :=
      List.filter_append_perm cmp s.q.list
    have hout : ((s.q.list.filter cmp).reverse ++ s.q.list.filter fun e => !cmp e).Perm s.q.list :=
      ((List.reverse_perm _).append_right _).trans hparts
    refine h.conserved.trans ?_
    simp only [QueueRun.giveBack, CountedQueue.takeOut, List.map_append, List.map_map,
      List.append_assoc]
    refine List.Perm.append_left _ ?_
    have hskbs := (hout.map IpqElement.skb).symm
    rwa [List.map_append] at hskbs
  order := by
    refine List.Sublist.trans (List.Sublist.map _ ?_) h.order
    exact List.reverse_sublist.mpr List.filter_sublist
  maximum := h.maximum

theorem QueueOk.enqueue {pkt : ℕ → NfPacket} {room : Bool} {stale : U32} {skb : ℕ}
    {s' : QueueRun} (h : QueueOk maxlen s)
    (hstep : QueueRun.step pkt (.enqueue skb room stale) s = some s') : QueueOk maxlen s' := by
  have hcounts := h.counts
  have hmaximum := h.maximum
  simp only [QueueRun.step, Option.some.injEq] at hstep
  subst hstep
  rcases s.q.ipqEnqueue_cases pkt room stale skb with ⟨hsame, hneg⟩ | ⟨hless, hjoin⟩
  · simpa only [hsame, if_neg hneg.not_ge] using h
  · have hanswer : 0 ≤ s.q.len + 1 := by omega
    simp only [hjoin, if_pos hanswer]
    refine ⟨?_, ?_, ?_, ?_, h.maximum⟩
    · simp [hcounts]
    · simp only [List.length_cons]
      omega
    · simp only [List.map_cons, CountedQueue.element]
      exact ((List.perm_append_singleton skb s.accepted).trans (h.conserved.cons skb)).trans
        List.perm_middle.symm
    · simp only [List.reverse_cons, List.map_append, List.map_singleton, CountedQueue.element]
      exact h.order.append (.refl _)

theorem queueOk_step {pkt : ℕ → NfPacket} {c : QueueCall} {s' : QueueRun} (h : QueueOk maxlen s)
    (hstep : QueueRun.step pkt c s = some s') : QueueOk maxlen s' := by
  rcases QueueRun.step_cases hstep with ⟨skb, room, stale, rfl⟩ | ⟨cmp, verdict, flushing, rfl⟩
  · exact h.enqueue hstep
  · exact h.giveBack cmp verdict flushing

end Ok

/-! ## Who is sent -/

/-- What is asked of one call: `ipq_send_ip` gives back the packets for the address, in the
order in which they came, and leaves the others; after `ipq_flush` nothing waits. -/
def Exact (pkt : ℕ → NfPacket) : QueueCall → QueueRun → Prop
  | .sendIp ip, s =>
      (s.q.ipqSendIp ip).2 =
          (s.q.list.reverse.filter fun e => (pkt e.skb).daddr == ip).map (fun e => (e, .accept)) ∧
        (s.q.ipqSendIp ip).1.list.reverse =
          s.q.list.reverse.filter fun e => !((pkt e.skb).daddr == ip)
  | .flush, s => s.q.ipqFlush.1.list = []
  | .enqueue .., _ => True
  | .dropIp _, _ => True
  | .devDrop _, _ => True

/-- No waiting packet is taken for one to the address by mistake, or not taken for one. -/
def Recorded (pkt : ℕ → NfPacket) : QueueCall → QueueRun → Prop
  | .sendIp ip, s => ∀ e ∈ s.q.list, e.daddr = ip ↔ (pkt e.skb).daddr = ip
  | .enqueue .., _ => True
  | .dropIp _, _ => True
  | .devDrop _, _ => True
  | .flush, _ => True

instance (pkt : ℕ → NfPacket) : (c : QueueCall) → (s : QueueRun) → Decidable (Recorded pkt c s)
  | .sendIp ip, s =>
      inferInstanceAs (Decidable (∀ e ∈ s.q.list, e.daddr = ip ↔ (pkt e.skb).daddr = ip))
  | .enqueue .., _ => .isTrue trivial
  | .dropIp _, _ => .isTrue trivial
  | .devDrop _, _ => .isTrue trivial
  | .flush, _ => .isTrue trivial

theorem exact_sendIp_iff (pkt : ℕ → NfPacket) (ip : U32) (s : QueueRun) :
    Exact pkt (.sendIp ip) s ↔ Recorded pkt (.sendIp ip) s := by
  have hsame : Recorded pkt (.sendIp ip) s ↔
      ∀ e ∈ s.q.list.reverse, CountedQueue.ipCmp ip e = ((pkt e.skb).daddr == ip) := by
    simp only [Recorded, List.mem_reverse]
    refine forall₂_congr fun e _ => ?_
    rw [Bool.eq_iff_iff, CountedQueue.ipCmp, beq_iff_eq, beq_iff_eq]
  rw [hsame, Exact, CountedQueue.ipqSendIp_eq_takeOut, CountedQueue.takeOut]
  simp only [← List.filter_reverse, Lists.filter_eq_filter_iff]
  constructor
  · rintro ⟨-, hrest⟩ e he
    simpa only [Bool.not_inj_iff] using hrest e he
  · intro hall
    exact ⟨by rw [List.filter_congr hall], fun e he => by rw [hall e he]⟩

theorem exact_iff_recorded (pkt : ℕ → NfPacket) (c : QueueCall) (s : QueueRun) :
    Exact pkt c s ↔ Recorded pkt c s := by
  cases c with
  | sendIp ip => exact exact_sendIp_iff pkt ip s
  | flush =>
      refine iff_of_true ?_ trivial
      simp only [Exact, CountedQueue.ipqFlush_eq_takeOut, CountedQueue.takeOut, Bool.not_true,
        List.filter_false]
  | enqueue | dropIp | devDrop => exact Iff.rfl

/-! ## The run -/

def AllRecorded (pkt : ℕ → NfPacket) (s : QueueRun) : Prop :=
  ∀ e ∈ s.q.list, e.daddr = (pkt e.skb).daddr

theorem allRecorded_step {pkt : ℕ → NfPacket} {c : QueueCall} {s s' : QueueRun}
    (hpost : ∀ skb room stale, c = .enqueue skb room stale → (pkt skb).hook = .postRouting)
    (h : AllRecorded pkt s) (hstep : QueueRun.step pkt c s = some s') : AllRecorded pkt s' := by
  rcases QueueRun.step_cases hstep with ⟨skb, room, stale, rfl⟩ | ⟨cmp, verdict, flushing, rfl⟩
  · simp only [QueueRun.step, Option.some.injEq] at hstep
    subst hstep
    rcases s.q.ipqEnqueue_cases pkt room stale skb with ⟨hsame, _⟩ | ⟨_, hjoin⟩
    · simpa only [AllRecorded, hsame] using h
    · simp only [AllRecorded, hjoin, List.forall_mem_cons]
      refine ⟨?_, h⟩
      simp [CountedQueue.element, hpost skb room stale rfl]
  · intro e he
    exact h e (List.mem_of_mem_filter he)

theorem AllRecorded.recorded {pkt : ℕ → NfPacket} {s : QueueRun} (h : AllRecorded pkt s)
    (c : QueueCall) : Recorded pkt c s := by
  cases c with
  | sendIp ip =>
      intro e he
      rw [h e he]
  | enqueue | dropIp | devDrop | flush => trivial

theorem queueOk_start (maxlen : ℕ) : QueueOk maxlen (.start maxlen) where
  counts := rfl
  bounded := Nat.zero_le _
  conserved := .refl _
  order := .refl _
  maximum := rfl

/-- The queue keeps its account in every run. Its calls do exactly what they should as long
as no waiting packet is noted with a wrong destination when `ipq_send_ip` looks for it, which
is so when all packets come from the post-routing hook. -/
theorem queue_run_iff (pkt : ℕ → NfPacket) (maxlen : ℕ) (calls : List QueueCall) :
    (∀ s, Visits (QueueRun.step pkt) (.start maxlen) calls s → QueueOk maxlen s) ∧
    (Throughout (QueueRun.step pkt) (Exact pkt) calls (.start maxlen) ↔
      Throughout (QueueRun.step pkt) (Recorded pkt) calls (.start maxlen)) ∧
    ((∀ skb room stale, .enqueue skb room stale ∈ calls → (pkt skb).hook = .postRouting) →
      Throughout (QueueRun.step pkt) (Exact pkt) calls (.start maxlen)) := by
  have hsame : Exact pkt = Recorded pkt := funext₂ fun c s => propext (exact_iff_recorded pkt c s)
  refine ⟨fun s hvisits => hvisits.invariant queueOk_step (queueOk_start maxlen), by rw [hsame], ?_⟩
  intro hpost
  rw [hsame]
  have hstart : AllRecorded pkt (.start maxlen) := by simp [AllRecorded, QueueRun.start,
    CountedQueue.create]
  refine throughout_of_invariant (fun c hc s s' h hstep => ⟨h.recorded c, ?_⟩) hstart
  refine allRecorded_step (fun skb room stale heq => hpost skb room stale ?_) h hstep
  rwa [← heq]

/-- A packet to 10.0.0.9 that was queued at the hook for local packets. -/
def localPacket (_ : ℕ) : NfPacket := ⟨.localOut, none, some 2, 0x0a000009⟩

/-- It is not sent when its destination becomes reachable. -/
theorem queued_packet_not_sent :
    ¬Throughout (QueueRun.step localPacket) (Exact localPacket)
      [.enqueue 1 true 0, .sendIp 0x0a000009] (.start 1024) := by
  rw [show Exact localPacket = Recorded localPacket from
    funext₂ fun c s => propext (exact_iff_recorded localPacket c s)]
  decide

/-! ## The queue of the module -/

namespace CountedQueue

/-- With a true counter and a packet from the post-routing hook, `ipq_enqueue` is the function
without the counter. -/
theorem toIpqQueue_ipqEnqueue {q : CountedQueue} (hlen : q.len = q.list.length)
    {pkt : ℕ → NfPacket} {skb : ℕ} (hpost : (pkt skb).hook = .postRouting) (room : Bool)
    (stale : U32) :
    ((q.ipqEnqueue pkt room stale skb).1.toIpqQueue, (q.ipqEnqueue pkt room stale skb).2) =
      Aodv.ipqEnqueue room ⟨skb, (pkt skb).daddr⟩ q.toIpqQueue := by
  simp only [ipqEnqueue, Aodv.ipqEnqueue, element, hpost, hlen, Nat.cast_le, if_true]
  split_ifs <;> rfl

theorem toIpqQueue_ipqSendIp (ip : U32) (q : CountedQueue) :
    ((q.ipqSendIp ip).1.toIpqQueue, (q.ipqSendIp ip).2) = Aodv.ipqSendIp ip q.toIpqQueue := by
  rw [ipqSendIp_eq_takeOut, Aodv.ipqSendIp, reinject, dequeueAll_eq _ _ (le_refl _)]
  rfl

theorem toIpqQueue_ipqDropIp (ip : U32) (q : CountedQueue) :
    ((q.ipqDropIp ip).1.toIpqQueue, (q.ipqDropIp ip).2) = Aodv.ipqDropIp ip q.toIpqQueue := by
  rw [ipqDropIp_eq_takeOut, Aodv.ipqDropIp, reinject, dequeueAll_eq _ _ (le_refl _)]
  rfl

end CountedQueue

end Aodv
end WirelessMesh
