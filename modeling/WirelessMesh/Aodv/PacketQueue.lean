import WirelessMesh.Routes.Protocol

/-!
# The aodv module: `packet_queue.c`

Packets without a route wait here. `ipq_enqueue` links at the head of the list
and `ipq_dequeue` searches from its tail, so that packets for one address leave
in the order in which they came.
-/

namespace WirelessMesh
namespace Aodv

open Routes

/-- A queued packet: the buffer and the destination `ipq_enqueue` notes for it. -/
structure IpqElement where
  skb : ℕ
  daddr : U32
  deriving DecidableEq, Repr

inductive Verdict where
  | drop
  | accept
  deriving DecidableEq, Repr

structure IpqQueue where
  list : List IpqElement
  maxlen : ℕ
  flushing : Bool
  terminate : Bool
  deriving DecidableEq, Repr

def enomem : ℤ := -12
def ebusy : ℤ := -16

/-- `ipq_enqueue` for a packet at the post-routing hook; `room` says whether the
element can be allocated. -/
def ipqEnqueue (room : Bool) (e : IpqElement) (q : IpqQueue) : IpqQueue × ℤ :=
  if !room then (q, enomem)
  else if q.maxlen ≤ q.list.length then (q, ebusy)
  else if q.flushing || q.terminate then (q, ebusy)
  else ({ q with list := e :: q.list }, q.list.length + 1)

/-- The search of `ipq_dequeue`, from the tail of the list. -/
def dequeueLast (cmp : IpqElement → Bool) : List IpqElement → Option (IpqElement × List IpqElement)
  | [] => none
  | e :: es =>
      match dequeueLast cmp es with
      | some (found, es') => some (found, e :: es')
      | none => if cmp e then some (e, es) else none

/-- The loop that `ipq_send_ip` and `ipq_drop_ip` run: take out matching packets
one by one. Each turn shortens the list, so its length bounds the turns. -/
def dequeueAll (cmp : IpqElement → Bool) : ℕ → List IpqElement →
    List IpqElement × List IpqElement
  | 0, es => ([], es)
  | fuel + 1, es =>
      match dequeueLast cmp es with
      | none => ([], es)
      | some (e, es') =>
          let (out, rest) := dequeueAll cmp fuel es'
          (e :: out, rest)

def reinject (verdict : Verdict) (ip : U32) (q : IpqQueue) :
    IpqQueue × List (IpqElement × Verdict) :=
  let (out, rest) := dequeueAll (fun e => e.daddr == ip) q.list.length q.list
  ({ q with list := rest }, out.map fun e => (e, verdict))

def ipqSendIp (ip : U32) (q : IpqQueue) : IpqQueue × List (IpqElement × Verdict) :=
  reinject .accept ip q

def ipqDropIp (ip : U32) (q : IpqQueue) : IpqQueue × List (IpqElement × Verdict) :=
  reinject .drop ip q

/-! ## What the loops leave -/

variable {cmp : IpqElement → Bool}

theorem dequeueLast_none {es : List IpqElement} (h : dequeueLast cmp es = none) :
    ∀ e ∈ es, cmp e = false := by
  induction es with
  | nil => simp
  | cons e es ih =>
      simp only [dequeueLast] at h
      cases hes : dequeueLast cmp es with
      | some c => simp [hes] at h
      | none =>
          rw [hes] at h
          split_ifs at h with hc
          simpa [hc] using ih hes

theorem dequeueLast_some {es es' : List IpqElement} {e : IpqElement}
    (h : dequeueLast cmp es = some (e, es')) :
    cmp e = true ∧ es.length = es'.length + 1 ∧
      es'.filter (fun x => !cmp x) = es.filter (fun x => !cmp x) ∧
      es.filter cmp = es'.filter cmp ++ [e] := by
  induction es generalizing es' with
  | nil => simp [dequeueLast] at h
  | cons x es ih =>
      simp only [dequeueLast] at h
      cases hes : dequeueLast cmp es with
      | some c =>
          obtain ⟨found, rest⟩ := c
          rw [hes] at h
          obtain ⟨rfl, rfl⟩ : found = e ∧ x :: rest = es' := by simpa using h
          obtain ⟨hc, hlen, hkeep, hout⟩ := ih hes
          refine ⟨hc, by simp [hlen], ?_, ?_⟩
          · simp [List.filter_cons, hkeep]
          · by_cases hx : cmp x = true <;> simp [hx, hout]
      | none =>
          rw [hes] at h
          split_ifs at h with hc
          obtain ⟨rfl, rfl⟩ : x = e ∧ es = es' := by simpa using h
          have hnone : es.filter cmp = [] := by
            simpa using dequeueLast_none hes
          exact ⟨hc, by simp, by simp [hc], by simp [hc, hnone]⟩

theorem dequeueAll_eq (fuel : ℕ) (es : List IpqElement) (hfuel : es.length ≤ fuel) :
    dequeueAll cmp fuel es = ((es.filter cmp).reverse, es.filter fun x => !cmp x) := by
  induction fuel generalizing es with
  | zero =>
      obtain rfl := List.length_eq_zero_iff.mp (Nat.le_zero.mp hfuel)
      rfl
  | succ fuel ih =>
      simp only [dequeueAll]
      cases hes : dequeueLast cmp es with
      | none =>
          have hno := dequeueLast_none hes
          have hout : es.filter cmp = [] := by simpa using hno
          have hkeep : es.filter (fun x => !cmp x) = es := by simpa using hno
          simp [hout, hkeep]
      | some c =>
          obtain ⟨e, es'⟩ := c
          obtain ⟨-, hlen, hkeep, hout⟩ := dequeueLast_some hes
          simp [ih es' (by omega), hkeep, hout]

theorem reinject_list (verdict : Verdict) (ip : U32) (q : IpqQueue) :
    (reinject verdict ip q).1.list = q.list.filter fun e => !(e.daddr == ip) := by
  simp [reinject, dequeueAll_eq]

theorem mem_reinject (verdict : Verdict) {ip : U32} {q : IpqQueue} {e : IpqElement} :
    e ∈ (reinject verdict ip q).1.list ↔ e ∈ q.list ∧ e.daddr ≠ ip := by
  simp [reinject_list]

theorem mem_ipqEnqueue {room : Bool} {e x : IpqElement} {q : IpqQueue} :
    x ∈ (ipqEnqueue room e q).1.list ↔ x ∈ q.list ∨ (x = e ∧ 0 ≤ (ipqEnqueue room e q).2) := by
  unfold ipqEnqueue
  split_ifs
  · simp [enomem]
  · simp [ebusy]
  · simp [ebusy]
  · have hlen : (0 : ℤ) ≤ q.list.length + 1 := by omega
    simp only [List.mem_cons, hlen, and_true]
    exact or_comm

end Aodv
end WirelessMesh
