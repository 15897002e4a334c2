import Mathlib.Data.List.Nodup
import Mathlib.Tactic.Common

/-!
# Emptying a queue

A loop takes the packets out of a queue, one after the other. What it does with a packet depends on
what the packet holds and is written down, and no other packet is touched. So the packets that are
put into the queue over time are all handled once and in order, whenever the queue is emptied.
-/

namespace QueueDrain

variable {σ ι κ ε τ : Type*} {body : σ → ι → σ}

theorem foldl_frame {f : σ → τ} (h : ∀ s p, f (body s p) = f s) (queue : List ι) (s : σ) :
    f (queue.foldl body s) = f s := by
  induction queue generalizing s with
  | nil => rfl
  | cons p queue ih => exact (ih (body s p)).trans (h s p)

/-- What the body of the loop changes at its own packet only. -/
theorem foldl_apply_of_notMem (contents : σ → ι → κ)
    (h : ∀ s {p q}, q ≠ p → contents (body s p) q = contents s q) {queue : List ι} {q : ι}
    (hq : q ∉ queue) (s : σ) : contents (queue.foldl body s) q = contents s q := by
  induction queue generalizing s with
  | nil => rfl
  | cons p queue ih =>
      have hrest : q ∉ queue := mt (List.mem_cons_of_mem p) hq
      exact (ih hrest (body s p)).trans (h s (List.ne_of_not_mem_cons hq))

/-- The body of the loop writes one entry for its packet and leaves the other packets alone. -/
structure Handles (contents : σ → ι → κ) (log : σ → List ε) (entry : ι → κ → ε)
    (body : σ → ι → σ) : Prop where
  log_eq : ∀ s p, log (body s p) = log s ++ [entry p (contents s p)]
  contents_eq : ∀ s {p q}, q ≠ p → contents (body s p) q = contents s q

/-- The entries of the packets of a queue, in its order. -/
theorem Handles.log_foldl {contents : σ → ι → κ} {log : σ → List ε} {entry : ι → κ → ε}
    (h : Handles contents log entry body) {queue : List ι} (hqueue : queue.Nodup) (s : σ) :
    log (queue.foldl body s) = log s ++ queue.map fun p => entry p (contents s p) := by
  induction queue generalizing s with
  | nil => exact (List.append_nil _).symm
  | cons p queue ih =>
      obtain ⟨hp, hnodup⟩ := List.nodup_cons.mp hqueue
      -- What the others hold is not changed by the first.
      have hrest : (queue.map fun q => entry q (contents (body s p) q)) =
          queue.map fun q => entry q (contents s q) := by
        apply List.map_congr_left
        intro q hq
        rw [h.contents_eq s (ne_of_mem_of_not_mem hq hp)]
      rw [List.foldl_cons, ih hnodup, h.log_eq, hrest, List.append_assoc, List.map_cons]
      rfl

theorem nodup_insert {front back : List ι} {packet : Option ι} (h : (front ++ back).Nodup)
    (hfresh : ∀ p ∈ packet, p ∉ front ++ back) : (front ++ packet.toList ++ back).Nodup := by
  cases packet with
  | none => rwa [Option.toList_none, List.append_nil]
  | some p =>
      rw [Option.toList_some, List.append_assoc, List.singleton_append, List.nodup_middle]
      exact List.nodup_cons.mpr ⟨hfresh p rfl, h⟩

/-! ## What was given to a queue -/

/-- Each packet that was given has its outcome in the log or is still in the queue, in order. -/
def InOrder (outcome : ι → ε → Prop) (given queue : List ι) (log : List ε) : Prop :=
  ∃ done, given = done ++ queue ∧ List.Forall₂ outcome done log

/-- The packets that were given first have the entries of what they held, and the others are
queued and still hold it. -/
def Kept (entry : ι → κ → ε) (contents : ι → κ) (queue : List ι) (log : List ε)
    (given : List (ι × κ)) : Prop :=
  ∃ done waiting, given = done ++ waiting ∧ log = done.map (fun p => entry p.1 p.2) ∧
    queue = waiting.map Prod.fst ∧ ∀ p ∈ waiting, contents p.1 = p.2

namespace Kept

variable {entry : ι → κ → ε} {contents contents' : ι → κ} {queue : List ι} {log : List ε}
  {given : List (ι × κ)}

theorem start : Kept entry contents [] [] [] :=
  ⟨[], [], rfl, rfl, rfl, fun _ h => absurd h List.not_mem_nil⟩

theorem frame (h : Kept entry contents queue log given)
    (heq : ∀ p ∈ queue, contents' p = contents p) : Kept entry contents' queue log given := by
  obtain ⟨done, waiting, hgiven, hlog, rfl, hheld⟩ := h
  refine ⟨done, waiting, hgiven, hlog, rfl, ?_⟩
  intro p hp
  exact (heq p.1 (List.mem_map_of_mem hp)).trans (hheld p hp)

theorem enqueue (h : Kept entry contents queue log given) {packet : Option (ι × κ)}
    (hpacket : ∀ p ∈ packet, contents p.1 = p.2) :
    Kept entry contents (queue ++ (packet.map Prod.fst).toList) log (given ++ packet.toList) := by
  obtain ⟨done, waiting, rfl, hlog, rfl, hheld⟩ := h
  refine ⟨done, waiting ++ packet.toList, List.append_assoc .., hlog, ?_, ?_⟩
  · cases packet <;> simp
  · intro p hp
    rcases List.mem_append.mp hp with hp | hp
    · exact hheld p hp
    · exact hpacket p (Option.mem_toList.mp hp)

theorem drain (h : Kept entry contents queue log given) (contents' : ι → κ) :
    Kept entry contents' [] (log ++ queue.map fun p => entry p (contents p)) given := by
  obtain ⟨done, waiting, rfl, rfl, rfl, hheld⟩ := h
  refine ⟨done ++ waiting, [], (List.append_nil _).symm, ?_, rfl,
    fun _ h => absurd h List.not_mem_nil⟩
  rw [List.map_append, List.map_map]
  congr 1
  apply List.map_congr_left
  intro p hp
  exact congrArg (entry p.1) (hheld p hp)

theorem inOrder (h : Kept entry contents queue log given) {outcome : ι → ε → Prop}
    (hentry : ∀ p c, outcome p (entry p c)) : InOrder outcome (given.map Prod.fst) queue log := by
  obtain ⟨done, waiting, rfl, rfl, rfl, -⟩ := h
  refine ⟨done.map Prod.fst, List.map_append, ?_⟩
  rw [List.forall₂_map_left_iff, List.forall₂_map_right_iff, List.forall₂_same]
  exact fun p _ => hentry p.1 p.2

/-- The entry at a position of the log is of the packet that was given there. -/
theorem getElem?_eq (h : Kept entry contents queue log given) {i : ℕ} {p : ι × κ} {e : ε}
    (hp : given[i]? = some p) (he : log[i]? = some e) : e = entry p.1 p.2 := by
  obtain ⟨done, waiting, rfl, rfl, -, -⟩ := h
  rw [List.getElem?_map] at he
  obtain ⟨p', hp', rfl⟩ := Option.map_eq_some_iff.mp he
  obtain ⟨hlt, -⟩ := List.getElem?_eq_some_iff.mp hp'
  rw [List.getElem?_append_left hlt] at hp
  rw [Option.some.inj (hp'.symm.trans hp)]

end Kept

theorem Handles.kept_foldl {contents : σ → ι → κ} {log : σ → List ε} {entry : ι → κ → ε}
    (h : Handles contents log entry body) {queue : List ι} (hqueue : queue.Nodup) {s : σ}
    {given : List (ι × κ)} (hkept : Kept entry (contents s) queue (log s) given) :
    Kept entry (contents (queue.foldl body s)) [] (log (queue.foldl body s)) given := by
  rw [h.log_foldl hqueue s]
  exact hkept.drain _

end QueueDrain
