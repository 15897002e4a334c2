import WirelessMesh.Lib.BlockRing

/-!
# Circular queues

A queue in `n` slots with a position for the next write and one for the next read. The
queue is empty when the two are equal, so that one slot always stays free: a write into
the last free slot makes a full ring look empty.
-/

structure Circular {α : Type*} (n : ℕ) (slots : ℕ → α) (i o : ℕ) (q : List α) : Prop where
  start : o < n
  fits : q.length < n
  stop : i = (o + q.length) % n
  held : ∀ j x, q[j]? = some x → slots ((o + j) % n) = x

namespace Circular

variable {α : Type*} {n : ℕ} {slots : ℕ → α} {i o : ℕ} {q : List α} {x : α}

theorem empty (ho : o < n) : Circular n slots o o [] where
  start := ho
  fits := Nat.zero_lt_of_lt ho
  stop := (RingIndex.slot_start ho).symm
  held := by simp

theorem stop_lt (h : Circular n slots i o q) : i < n := by
  rw [h.stop]
  exact Nat.mod_lt _ (Nat.zero_lt_of_lt h.start)

/-- The distance of the two positions is the length of the queue. -/
theorem stop_cases (h : Circular n slots i o q) : i = o + q.length ∨ i + n = o + q.length := by
  have hstart := h.start
  have hfits := h.fits
  rw [h.stop]
  by_cases hlt : o + q.length < n
  · exact .inl (Nat.mod_eq_of_lt hlt)
  · right
    rw [Nat.mod_eq_sub_mod (Nat.not_lt.mp hlt), Nat.mod_eq_of_lt (by omega)]
    omega

theorem stop_eq_start_iff (h : Circular n slots i o q) : i = o ↔ q = [] := by
  have hcases := h.stop_cases
  have hfits := h.fits
  rw [← List.length_eq_zero_iff]
  have hlt := h.stop_lt
  have hstart := h.start
  omega

theorem push (h : Circular n slots i o q) (hroom : q.length + 1 < n) (x : α) :
    Circular n (Function.update slots i x) ((i + 1) % n) o (q ++ [x]) where
  start := h.start
  fits := by simpa using hroom
  stop := by
    rw [h.stop, RingIndex.slot_next]
    simp
  held := by
    intro j y hj
    rcases Nat.lt_trichotomy j q.length with hlt | rfl | hgt
    · rw [List.getElem?_append_left hlt] at hj
      rw [Function.update_of_ne]
      · exact h.held j y hj
      · rw [h.stop]
        intro heq
        exact hlt.ne (RingIndex.slot_inj (hlt.trans h.fits) h.fits heq)
    · rw [← h.stop, Function.update_self]
      simpa using hj
    · rw [List.getElem?_eq_none (by simpa using Nat.succ_le_of_lt hgt)] at hj
      cases hj

/-- A write into the last free slot brings the two positions together. -/
theorem push_last (h : Circular n slots i o q) (hfull : q.length + 1 = n) : (i + 1) % n = o := by
  rw [h.stop, RingIndex.slot_next, hfull, RingIndex.slot_wrap h.start]

theorem head (h : Circular n slots i o (x :: q)) : slots o = x := by
  have hhead := h.held 0 x rfl
  rwa [RingIndex.slot_start h.start] at hhead

theorem pop (h : Circular n slots i o (x :: q)) : Circular n slots i ((o + 1) % n) q where
  start := Nat.mod_lt _ (Nat.zero_lt_of_lt h.start)
  fits := Nat.lt_of_succ_lt h.fits
  stop := by
    rw [RingIndex.slot_shift]
    exact h.stop
  held := by
    intro j y hj
    rw [RingIndex.slot_shift]
    exact h.held (j + 1) y hj

end Circular
