import Mathlib.Data.List.Nodup
import Mathlib.Logic.Function.Basic
import Mathlib.Tactic.Common

/-!
# Singly linked tail queues

The queue of `sys/queue.h` with a pointer to its first element and a pointer to the last
link, which is the head's own link while the queue is empty. The links are in the elements,
so that an element in the queue that is put into it once more changes the links of others.
-/

/-- The head of a queue and the links of all elements. `last` is the element that holds the
last link, and `none` for the head. -/
structure TailQueue (β : Type*) where
  first : Option β
  last : Option β
  next : β → Option β

namespace TailQueue

variable {β : Type*}

/-- `STAILQ_EMPTY`. -/
def isEmpty (q : TailQueue β) : Bool := q.first.isNone

/-- `STAILQ_INIT`, with elements that are linked nowhere. -/
def empty : TailQueue β := ⟨none, none, fun _ => none⟩

def removeHead (q : TailQueue β) : TailQueue β :=
  match q.first with
  | none => q
  | some b =>
      match q.next b with
      | none => { q with first := none, last := none }
      | some c => { q with first := some c }

def insertTail [DecidableEq β] (q : TailQueue β) (b : β) : TailQueue β :=
  let next := Function.update q.next b none
  match q.last with
  | none => { first := some b, last := some b, next }
  | some e => { q with last := some b, next := Function.update next e (some b) }

def Linked (next : β → Option β) : Option β → List β → Prop
  | link, [] => link = none
  | link, b :: l => link = some b ∧ Linked next (next b) l

structure Holds (q : TailQueue β) (l : List β) : Prop where
  linked : Linked q.next q.first l
  last : q.last = l.getLast?
  nodup : l.Nodup

variable {q : TailQueue β} {l : List β} {b : β}

theorem holds_empty : (empty : TailQueue β).Holds [] := ⟨rfl, rfl, List.nodup_nil⟩

theorem Holds.first_eq (h : q.Holds l) : q.first = l.head? := by
  have hlinked := h.linked
  cases l with
  | nil => exact hlinked
  | cons b l => exact hlinked.1

theorem Holds.removeHead (h : q.Holds (b :: l)) : q.removeHead.Holds l := by
  obtain ⟨hfirst, hlinked⟩ := h.linked
  have hnodup := (List.nodup_cons.mp h.nodup).2
  have hlast := h.last
  cases l with
  | nil =>
      have hnext : q.next b = none := hlinked
      simp only [TailQueue.removeHead, hfirst, hnext]
      exact ⟨rfl, rfl, List.nodup_nil⟩
  | cons c l =>
      have hnext : q.next b = some c := hlinked.1
      simp only [TailQueue.removeHead, hfirst, hnext]
      exact ⟨⟨rfl, hlinked.2⟩, hlast, hnodup⟩

variable [DecidableEq β]

/-- Links of elements outside of a list do not matter for it. -/
theorem Linked.update {next : β → Option β} {link : Option β} (h : Linked next link l)
    (hb : b ∉ l) (v : Option β) : Linked (Function.update next b v) link l := by
  induction l generalizing link with
  | nil => exact h
  | cons c l ih =>
      obtain ⟨rfl, h⟩ := h
      have hne : c ≠ b := fun heq => hb (heq ▸ List.mem_cons_self)
      refine ⟨rfl, ?_⟩
      rw [Function.update_of_ne hne]
      exact ih h fun hmem => hb (List.mem_cons_of_mem c hmem)

theorem Linked.concat {next : β → Option β} {link : Option β} {e : β}
    (h : Linked next link (l ++ [e])) (hnodup : (l ++ [e]).Nodup) (hb : b ∉ l ++ [e])
    (hend : next b = none) : Linked (Function.update next e (some b)) link (l ++ [e] ++ [b]) := by
  induction l generalizing link with
  | nil =>
      have hne : b ≠ e := fun heq => hb (by simp [heq])
      obtain ⟨rfl, -⟩ := h
      refine ⟨rfl, ?_⟩
      rw [Function.update_self]
      exact ⟨rfl, by rw [Function.update_of_ne hne]; exact hend⟩
  | cons c l ih =>
      obtain ⟨rfl, h⟩ := h
      obtain ⟨hc, hnodup⟩ := List.nodup_cons.mp hnodup
      have hne : c ≠ e := fun heq => hc (by simp [heq])
      refine ⟨rfl, ?_⟩
      rw [Function.update_of_ne hne]
      exact ih h hnodup fun hmem => hb (List.mem_cons_of_mem c hmem)

/-- An element that is not in the queue goes to its end. -/
theorem Holds.insertTail (h : q.Holds l) (hb : b ∉ l) : (q.insertTail b).Holds (l ++ [b]) := by
  have hnodup : (l ++ [b]).Nodup := by
    rw [List.nodup_append_comm]
    exact List.nodup_cons.mpr ⟨hb, h.nodup⟩
  have hlast := h.last
  rcases List.eq_nil_or_concat l with rfl | ⟨l, e, rfl⟩
  · have hnone : q.last = none := hlast
    simp only [TailQueue.insertTail, hnone]
    have hend : Function.update q.next b none b = none := Function.update_self _ _ _
    exact ⟨⟨rfl, hend⟩, rfl, hnodup⟩
  · rw [List.concat_eq_append] at *
    have hsome : q.last = some e := by simpa using hlast
    simp only [TailQueue.insertTail, hsome]
    refine ⟨?_, by simp, hnodup⟩
    exact (h.linked.update hb none).concat h.nodup hb (Function.update_self _ _ _)

end TailQueue
