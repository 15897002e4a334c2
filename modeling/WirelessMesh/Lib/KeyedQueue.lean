import Mathlib.Data.List.Basic
import Mathlib.Tactic.Common

/-!
# Queues that hold each key once

A queue refuses an entry whose key is there already, and deletes by key. Deleting a key and
enqueuing an entry with the same key replaces what was there; this is how a timer is set
again. The lemmas say what the two operations do to the entries of one kind, which may be
those of a key or any others.
-/

namespace KeyedQueue

variable {α κ : Type*} [DecidableEq κ] (key : α → κ)

def pending (k : κ) (q : List α) : List α := q.filter fun x => key x = k

def rest (k : κ) (q : List α) : List α := q.filter fun x => key x ≠ k

def enqueue (x : α) (q : List α) : List α := if pending key (key x) q = [] then x :: q else q

def delete (k : κ) (q : List α) : List α := rest key k q

variable {key} {k k' : κ} {x : α} {q : List α}

theorem pending_eq_nil_iff : pending key k q = [] ↔ ∀ y ∈ q, key y ≠ k := by
  simp [pending, List.filter_eq_nil_iff]

variable (key) in
theorem enqueue_eq_any (x : α) (q : List α) :
    enqueue key x q = if q.any fun y => key y = key x then q else x :: q := by
  have hany : (q.any fun y => key y = key x) = true ↔ pending key (key x) q ≠ [] := by
    rw [Ne, pending_eq_nil_iff]
    simp
  unfold enqueue
  by_cases hfree : pending key (key x) q = []
  · rw [if_pos hfree, if_neg (fun h => hany.mp h hfree)]
  · rw [if_neg hfree, if_pos (hany.mpr hfree)]

theorem filter_enqueue (p : α → Bool) : (enqueue key x q).filter p =
    if pending key (key x) q = [] ∧ p x = true then x :: q.filter p else q.filter p := by
  by_cases hfree : pending key (key x) q = []
  · by_cases hx : p x = true
    · simp [enqueue, hfree, hx]
    · simp [enqueue, hfree, hx]
  · simp [enqueue, hfree]

variable (key) in
theorem pending_enqueue (x : α) (q : List α) : pending key (key x) (enqueue key x q) =
    if pending key (key x) q = [] then [x] else pending key (key x) q := by
  rw [pending, filter_enqueue]
  by_cases hfree : pending key (key x) q = []
  · rw [if_pos ⟨hfree, decide_eq_true rfl⟩, if_pos hfree]
    exact congrArg (List.cons x) hfree
  · rw [if_neg (fun h => hfree h.1), if_neg hfree]
    rfl

variable (key) in
theorem rest_enqueue (x : α) (q : List α) :
    rest key (key x) (enqueue key x q) = rest key (key x) q := by
  have hown : ¬(pending key (key x) q = [] ∧ decide (key x ≠ key x) = true) := by simp
  rw [rest, filter_enqueue, if_neg hown]
  rfl

/-- Deleting leaves the entries of a kind alone that has none with the key. -/
theorem filter_delete_of_forall {p : α → Bool} (h : ∀ y ∈ q, p y = true → key y ≠ k) :
    (delete key k q).filter p = q.filter p := by
  rw [delete, rest, List.filter_filter]
  apply List.filter_congr
  intro y hy
  cases hp : p y with
  | false => rfl
  | true => simpa using h y hy hp

theorem pending_delete_self : pending key k (delete key k q) = [] := by
  rw [pending_eq_nil_iff]
  intro y hy
  simpa using (List.mem_filter.mp hy).2

theorem pending_delete_of_ne (h : k ≠ k') : pending key k (delete key k' q) = pending key k q := by
  apply filter_delete_of_forall
  intro y _ hy heq
  exact h ((of_decide_eq_true hy).symm.trans heq)

theorem rest_delete_self : rest key k (delete key k q) = rest key k q := by
  apply filter_delete_of_forall
  intro y _ hy
  exact of_decide_eq_true hy

/-- Deleting another key is seen in the rest exactly when the key was in use. -/
theorem rest_delete_eq_iff (h : k ≠ k') :
    rest key k (delete key k' q) = rest key k q ↔ pending key k' q = [] := by
  rw [pending_eq_nil_iff]
  constructor
  · intro hsame y hy heq
    have hmem : y ∈ rest key k q := by
      refine List.mem_filter.mpr ⟨hy, ?_⟩
      simpa [heq] using h.symm
    rw [← hsame] at hmem
    have hkept := (List.mem_filter.mp (List.mem_filter.mp hmem).1).2
    exact absurd heq (by simpa using hkept)
  · intro hfree
    apply filter_delete_of_forall
    intro y hy _
    exact hfree y hy

end KeyedQueue
