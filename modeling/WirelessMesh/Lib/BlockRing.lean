import Mathlib.Data.Nat.ModEq
import Mathlib.Logic.Function.Basic
import Mathlib.Tactic.Common

/-!
# Rings of blocks

A producer and a consumer share a ring of `n` slots through two positions. The producer
fills the slot at `fill` and publishes it; the consumer drains the slot at `drain` and
releases it. A position that has run into the other one is taken away, and given back by
the other side: no `fill` means that the ring is full, no `drain` that it is empty. The
published slots form a queue, and neither side touches the slot of the other.
-/

structure RingIndex where
  fill : Option ℕ
  drain : Option ℕ
deriving DecidableEq

namespace RingIndex

def publish (n : ℕ) (r : RingIndex) : RingIndex :=
  match r.fill with
  | none => r
  | some i =>
      let next := (i + 1) % n
      { fill := if some next = r.drain then none else some next
        drain := r.drain.or (some i) }

def release (n : ℕ) (r : RingIndex) : RingIndex :=
  match r.drain with
  | none => r
  | some i =>
      let next := (i + 1) % n
      { fill := r.fill.or (some i)
        drain := if some next = r.fill then none else some next }

def published (n : ℕ) (r : RingIndex) : List ℕ :=
  match r.drain with
  | none => []
  | some o =>
      let count := match r.fill with
        | none => n
        | some i => (i + n - o) % n
      (List.range count).map fun j => (o + j) % n

/-- The slots from `o` on hold the queue `q`. The one behind them is being filled, and the
others are idle. -/
structure Queued {β : Type*} (n : ℕ) (idle : β → Prop) (r : RingIndex) (slots : ℕ → β) (o : ℕ)
    (q : List β) : Prop where
  start : o < n
  fits : q.length ≤ n
  drain_eq : r.drain = if q.length = 0 then none else some o
  fill_eq : r.fill = if q.length = n then none else some ((o + q.length) % n)
  held : ∀ j x, q[j]? = some x → slots ((o + j) % n) = x
  rest : ∀ j, q.length < j → j < n → idle (slots ((o + j) % n))

section Slots

variable {n o j k : ℕ}

theorem slot_inj (hj : j < n) (hk : k < n) (h : (o + j) % n = (o + k) % n) : j = k :=
  (Nat.ModEq.add_left_cancel' o h).eq_of_lt_of_lt hj hk

theorem slot_start (ho : o < n) : (o + 0) % n = o := Nat.mod_eq_of_lt ho

theorem slot_ne_start (ho : o < n) (hpos : 0 < j) (hj : j < n) : (o + j) % n ≠ o := by
  intro h
  have hzero : j = 0 := slot_inj hj (hpos.trans hj) (h.trans (slot_start ho).symm)
  omega

theorem slot_wrap (ho : o < n) : (o + n) % n = o := by
  rw [Nat.add_mod_right, Nat.mod_eq_of_lt ho]

theorem slot_distance (ho : o < n) (hj : j < n) : ((o + j) % n + n - o) % n = j := by
  by_cases hlt : o + j < n
  · have hsum : o + j + n - o = j + n := by omega
    rw [Nat.mod_eq_of_lt hlt, hsum, Nat.add_mod_right, Nat.mod_eq_of_lt hj]
  · have hwrap : (o + j) % n = o + j - n := by
      rw [Nat.mod_eq_sub_mod (Nat.not_lt.mp hlt), Nat.mod_eq_of_lt (by omega)]
    have hsum : o + j - n + n - o = j := by omega
    rw [hwrap, hsum, Nat.mod_eq_of_lt hj]

theorem slot_next (n o j : ℕ) : ((o + j) % n + 1) % n = (o + (j + 1)) % n := by
  rw [Nat.mod_add_mod, Nat.add_assoc]

theorem slot_shift (n o j : ℕ) : ((o + 1) % n + j) % n = (o + (j + 1)) % n := by
  rw [Nat.mod_add_mod, Nat.add_assoc, Nat.add_comm 1 j]

end Slots

namespace Queued

variable {β : Type*} {n : ℕ} {idle : β → Prop} {r : RingIndex} {slots : ℕ → β} {o i : ℕ}
  {q : List β} {x y : β}

theorem empty (hn : 0 < n) (h : ∀ j, idle (slots j)) :
    Queued n idle ⟨some 0, none⟩ slots 0 [] where
  start := hn
  fits := Nat.zero_le n
  drain_eq := rfl
  fill_eq := by simp [hn.ne]
  held := by simp
  rest := fun j _ _ => h _

theorem of_fill (h : Queued n idle r slots o q) (hfill : r.fill = some i) :
    q.length < n ∧ i = (o + q.length) % n := by
  have heq := h.fill_eq
  rw [hfill] at heq
  split_ifs at heq with hfull
  exact ⟨lt_of_le_of_ne h.fits hfull, Option.some.inj heq⟩

/-- The consumer has a position exactly when the queue is not empty. -/
theorem drain_isSome (h : Queued n idle r slots o q) : r.drain.isSome ↔ q ≠ [] := by
  rw [h.drain_eq]
  cases q <;> simp

theorem of_drain (h : Queued n idle r slots o q) (hdrain : r.drain = some i) :
    i = o ∧ ∃ q', q = slots o :: q' := by
  have heq := h.drain_eq
  rw [hdrain] at heq
  cases q with
  | nil => simp at heq
  | cons x q' =>
      have hhead := h.held 0 x rfl
      rw [slot_start h.start] at hhead
      exact ⟨by simpa using heq, q', by rw [hhead]⟩

theorem fill_ne_start (h : Queued n idle r slots o (x :: q)) (hfill : r.fill = some i) :
    i ≠ o := by
  obtain ⟨hlt, rfl⟩ := h.of_fill hfill
  exact slot_ne_start h.start (by simp) hlt

theorem published_eq (h : Queued n idle r slots o q) :
    r.published n = (List.range q.length).map fun j => (o + j) % n := by
  unfold RingIndex.published
  rw [h.drain_eq]
  by_cases hnil : q.length = 0
  · rw [if_pos hnil, hnil]
    rfl
  · rw [if_neg hnil, h.fill_eq]
    by_cases hfull : q.length = n
    · rw [if_pos hfull, hfull]
    · rw [if_neg hfull]
      dsimp only
      rw [slot_distance h.start (lt_of_le_of_ne h.fits hfull)]

/-- Writing into the slot that is being filled leaves the queue alone. -/
theorem write (h : Queued n idle r slots o q) (hfill : r.fill = some i) :
    Queued n idle r (Function.update slots i y) o q := by
  obtain ⟨hlt, rfl⟩ := h.of_fill hfill
  refine { h with held := ?_, rest := ?_ }
  · intro j x hj
    have hj' : j < q.length := (List.getElem?_eq_some_iff.mp hj).1
    rw [Function.update_of_ne]
    · exact h.held j x hj
    · intro heq
      exact hj'.ne (slot_inj (hj'.trans hlt) hlt heq)
  · intro j hj hjn
    rw [Function.update_of_ne]
    · exact h.rest j hj hjn
    · intro heq
      exact hj.ne' (slot_inj hjn hlt heq)

/-- Writing into the slot that is being drained changes the first of the queue. -/
theorem write_head (h : Queued n idle r slots o (x :: q)) :
    Queued n idle r (Function.update slots o y) o (y :: q) := by
  refine ⟨h.start, h.fits, h.drain_eq, h.fill_eq, ?_, ?_⟩
  · intro j z hj
    cases j with
    | zero =>
        rw [slot_start h.start, Function.update_self]
        exact Option.some.inj hj
    | succ j =>
        have hlt : j + 1 < (x :: q).length := (List.getElem?_eq_some_iff.mp hj).1
        rw [Function.update_of_ne (slot_ne_start h.start j.succ_pos (hlt.trans_le h.fits))]
        exact h.held (j + 1) z hj
  · intro j hj hjn
    rw [Function.update_of_ne (slot_ne_start h.start (Nat.zero_lt_of_lt hj) hjn)]
    exact h.rest j hj hjn

/-- The published slot is the last of the queue, and the next one was idle. -/
theorem publish (h : Queued n idle r slots o q) (hn : 2 ≤ n) (hfill : r.fill = some i) :
    Queued n idle (r.publish n) slots o (q ++ [slots i]) ∧
      ∀ i', (r.publish n).fill = some i' → idle (slots i') := by
  obtain ⟨hlt, rfl⟩ := h.of_fill hfill
  have hlen : (q ++ [slots ((o + q.length) % n)]).length = q.length + 1 := by simp
  have hdrain : (r.publish n).drain = some o := by
    simp only [RingIndex.publish, hfill, h.drain_eq]
    split_ifs with hnil
    · rw [Option.none_or, hnil, slot_start h.start]
    · rw [Option.some_or]
  -- the next slot is that of the consumer exactly when the ring is full now
  have hnext : (r.publish n).fill =
      if q.length + 1 = n then none else some ((o + (q.length + 1)) % n) := by
    simp only [RingIndex.publish, hfill, slot_next, h.drain_eq]
    by_cases hfull : q.length + 1 = n
    · have hne : q.length ≠ 0 := by omega
      rw [if_neg hne, if_pos hfull, hfull, slot_wrap h.start, if_pos rfl]
    · rw [if_neg hfull, if_neg]
      split_ifs
      · simp
      · intro heq
        exact slot_ne_start h.start (Nat.succ_pos _) (by omega) (Option.some.inj heq)
  refine ⟨⟨h.start, by omega, ?_, ?_, ?_, ?_⟩, ?_⟩
  · rw [hdrain, hlen, if_neg (Nat.succ_ne_zero _)]
  · rw [hnext, hlen]
  · intro j x hj
    by_cases hjq : j < q.length
    · rw [List.getElem?_append_left hjq] at hj
      exact h.held j x hj
    · have hj' : j < q.length + 1 := hlen ▸ (List.getElem?_eq_some_iff.mp hj).1
      obtain rfl : j = q.length := by omega
      simpa using hj
  · intro j hj hjn
    rw [hlen] at hj
    exact h.rest j (by omega) hjn
  · intro i' hi'
    rw [hnext] at hi'
    split_ifs at hi' with hfull
    obtain rfl := Option.some.inj hi'
    exact h.rest _ (Nat.lt_succ_self _) (by omega)

/-- The released slot is idle, and is the next one to be filled if there was none. -/
theorem release (h : Queued n idle r slots o (x :: q)) (hn : 2 ≤ n) (hy : idle y) :
    Queued n idle (r.release n) (Function.update slots o y) ((o + 1) % n) q ∧
      ∀ i, (r.release n).fill = some i → r.fill = some i ∧ i ≠ o ∨ r.fill = none ∧ i = o := by
  have hfits : q.length + 1 ≤ n := h.fits
  have hdrain : r.drain = some o := by rw [h.drain_eq]; simp
  have hfilled : (r.release n).fill = some (((o + 1) % n + q.length) % n) := by
    simp only [RingIndex.release, hdrain, h.fill_eq, slot_shift, List.length_cons]
    split_ifs with hfull
    · rw [Option.none_or, hfull, slot_wrap h.start]
    · rw [Option.some_or]
  have hdrained : (r.release n).drain =
      if q.length = 0 then none else some ((o + 1) % n) := by
    simp only [RingIndex.release, hdrain, h.fill_eq, List.length_cons]
    by_cases hlast : q.length = 0
    · have hne : ¬q.length + 1 = n := by omega
      rw [if_neg hne, hlast, if_pos rfl, if_pos rfl]
    · rw [if_neg hlast, if_neg]
      split_ifs with hfull
      · simp
      · intro heq
        have := slot_inj (by omega) (by omega) (Option.some.inj heq)
        omega
  refine ⟨⟨Nat.mod_lt _ (by omega), by omega, hdrained, ?_, ?_, ?_⟩, ?_⟩
  · rw [hfilled, if_neg (by omega)]
  · intro j z hj
    have hlt : j < q.length := (List.getElem?_eq_some_iff.mp hj).1
    rw [slot_shift, Function.update_of_ne (slot_ne_start h.start j.succ_pos (by omega))]
    exact h.held (j + 1) z hj
  · intro j hj hjn
    rw [slot_shift]
    by_cases hwrap : j + 1 = n
    · rw [hwrap, slot_wrap h.start, Function.update_self]
      exact hy
    · rw [Function.update_of_ne (slot_ne_start h.start j.succ_pos (by omega))]
      exact h.rest (j + 1) (by rw [List.length_cons]; omega) (by omega)
  · intro i hi
    cases hfill : r.fill with
    | some i' =>
        have : i' = i := by simpa [RingIndex.release, hdrain, hfill] using hi
        subst this
        exact .inl ⟨rfl, h.fill_ne_start hfill⟩
    | none =>
        have : o = i := by simpa [RingIndex.release, hdrain, hfill] using hi
        exact .inr ⟨rfl, this.symm⟩

end Queued

end RingIndex
