import Mathlib.Data.List.Basic
import Mathlib.Tactic.Common

/-!
# Filters against replays

A sender numbers its messages upwards; a receiver remembers the last number it took and
takes only higher ones. However the messages arrive, the receiver stands at a mark in the
sequence of messages: those before the mark are refused, those from it on are taken. What
it has taken is part of what was sent before the mark, in order and without repetition.
-/

namespace ReplayFilter

variable {α : Type*} {numbers : List ℕ} {last mark p i : ℕ}

/-- A receiver that took `last` takes the messages from position `mark` on. -/
structure Stands (numbers : List ℕ) (last mark : ℕ) : Prop where
  mark_le : mark ≤ numbers.length
  fresh : ∀ i p, numbers[i]? = some p → (last < p ↔ mark ≤ i)

theorem stands_nil (last : ℕ) : Stands [] last 0 where
  mark_le := Nat.le_refl 0
  fresh i p h := by simp at h

/-- A message that is sent with a number above the last one. -/
theorem Stands.issue (h : Stands numbers last mark) (hp : last < p) :
    Stands (numbers ++ [p]) last mark where
  mark_le := by
    rw [List.length_append]
    exact Nat.le_add_right_of_le h.mark_le
  fresh j q hq := by
    by_cases hj : j < numbers.length
    · rw [List.getElem?_append_left hj] at hq
      exact h.fresh j q hq
    · have hmark := h.mark_le
      rw [List.getElem?_append_right (by omega), List.getElem?_singleton] at hq
      split at hq
      · obtain rfl := Option.some.inj hq
        exact iff_of_true hp (by omega)
      · cases hq

/-- A message that is taken moves the mark behind itself. -/
theorem Stands.accept (hup : numbers.Pairwise (· < ·)) (hi : numbers[i]? = some p) :
    Stands numbers p (i + 1) where
  mark_le := (List.getElem?_eq_some_iff.mp hi).1
  fresh j q hq := by
    obtain ⟨hilen, rfl⟩ := List.getElem?_eq_some_iff.mp hi
    obtain ⟨hjlen, rfl⟩ := List.getElem?_eq_some_iff.mp hq
    rw [List.pairwise_iff_getElem] at hup
    constructor
    · intro hlt
      by_contra hle
      rcases Nat.lt_or_eq_of_le (Nat.le_of_lt_succ (Nat.lt_of_not_le hle)) with h | h
      · exact Nat.lt_asymm hlt (hup j i hjlen hilen h)
      · subst h
        exact Nat.lt_irrefl _ hlt
    · intro hlt
      exact hup i j hilen hjlen hlt

/-- What was taken before the mark, and a message from behind it. -/
theorem sublist_take_succ {l d : List α} {x : α} (hd : d.Sublist (l.take mark)) (hmark : mark ≤ i)
    (hi : l[i]? = some x) : (d ++ [x]).Sublist (l.take (i + 1)) := by
  rw [List.take_add_one, hi]
  apply List.Sublist.append _ (List.Sublist.refl _)
  exact hd.trans (List.take_sublist_take_left hmark)

/-! ## Sender and receiver -/

/-- A sender that has sent `sent` under `numbers` and will use `next` or something higher, and
a receiver that has taken `taken`, the last of it under the number `last`. -/
structure Link (numbers : List ℕ) (sent taken : List α) (next last mark : ℕ) : Prop where
  up : numbers.Pairwise (· < ·)
  lt_next : ∀ p ∈ numbers, p < next
  last_lt : last < next
  stands : Stands numbers last mark
  same_length : numbers.length = sent.length
  taken : taken.Sublist (sent.take mark)

variable {sent taken : List α} {next : ℕ} {x : α}

theorem Link.start (h : last < next) : Link [] ([] : List α) [] next last 0 where
  up := List.Pairwise.nil
  lt_next p hp := by cases hp
  last_lt := h
  stands := stands_nil last
  same_length := rfl
  taken := List.Sublist.refl []

theorem Link.skip (h : Link numbers sent taken next last mark) :
    Link numbers sent taken (next + 1) last mark :=
  { h with
    lt_next := fun p hp => Nat.lt_succ_of_lt (h.lt_next p hp)
    last_lt := Nat.lt_succ_of_lt h.last_lt }

theorem Link.send (h : Link numbers sent taken next last mark) (x : α) :
    Link (numbers ++ [next]) (sent ++ [x]) taken (next + 1) last mark where
  up := by
    rw [List.pairwise_append]
    refine ⟨h.up, List.pairwise_singleton _ _, fun p hp q hq => ?_⟩
    rw [List.mem_singleton.mp hq]
    exact h.lt_next p hp
  lt_next p hp := by
    rcases List.mem_append.mp hp with hp | hp
    · exact Nat.lt_succ_of_lt (h.lt_next p hp)
    · rw [List.mem_singleton.mp hp]
      exact Nat.lt_succ_self next
  last_lt := Nat.lt_succ_of_lt h.last_lt
  stands := h.stands.issue h.last_lt
  same_length := by rw [List.length_append, List.length_append, h.same_length]; rfl
  taken := by
    rw [List.take_append_of_le_length (h.same_length ▸ h.stands.mark_le)]
    exact h.taken

/-- A message at or behind the mark is taken, and the mark moves behind it. -/
theorem Link.accept (h : Link numbers sent taken next last mark) (hi : numbers[i]? = some p)
    (hx : sent[i]? = some x) (hmark : mark ≤ i) :
    Link numbers sent (taken ++ [x]) next p (i + 1) where
  up := h.up
  lt_next := h.lt_next
  last_lt := h.lt_next p (List.mem_of_getElem? hi)
  stands := Stands.accept h.up hi
  same_length := h.same_length
  taken := sublist_take_succ h.taken hmark hx

end ReplayFilter
