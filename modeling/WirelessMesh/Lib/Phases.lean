import Mathlib.Algebra.BigOperators.Group.Finset.Basic
import Mathlib.Tactic.Common

/-!
# Phases of given lengths

A run passes through numbered phases, each for its own number of ticks or for ever. It keeps to
a timetable when it is in each phase during exactly the ticks that the timetable gives to it.
-/

namespace Phases

open Finset

/-- The tick at which a phase begins, for phases of the given lengths. -/
def start (d : ℕ → ℕ) (k : ℕ) : ℕ := ∑ i ∈ range k, d i

@[simp] theorem start_zero (d : ℕ → ℕ) : start d 0 = 0 := rfl

theorem start_succ (d : ℕ → ℕ) (k : ℕ) : start d (k + 1) = start d k + d k :=
  sum_range_succ d k

variable {σ : Type*}

/-- The run is in phase `k` for the ticks from `start d k` on, `d k` of them. -/
def Follows (run : ℕ → σ) (Phase : ℕ → σ → Prop) (d : ℕ → ℕ) : Prop :=
  ∀ n k, start d k ≤ n → n < start d (k + 1) → Phase k (run n)

/-- The phases of a run, with the lengths that they really have. A phase without a length
does not end. -/
structure PassesThrough (run : ℕ → σ) (Phase Begins : ℕ → σ → Prop) (len : ℕ → Option ℕ) :
    Prop where
  begins : Begins 0 (run 0)
  during : ∀ {k n j}, Begins k (run n) → (∀ l, len k = some l → j < l) → Phase k (run (n + j))
  next : ∀ {k n l}, Begins k (run n) → len k = some l → Begins (k + 1) (run (n + l))
  pos : ∀ {k l}, len k = some l → 0 < l
  unique : ∀ {k k' s}, Phase k s → Phase k' s → k = k'

variable {run : ℕ → σ} {Phase Begins : ℕ → σ → Prop} {len : ℕ → Option ℕ} {d : ℕ → ℕ}

theorem PassesThrough.begins_start (h : PassesThrough run Phase Begins len) {k : ℕ}
    (hlen : ∀ i < k, len i = some (d i)) : Begins k (run (start d k)) := by
  induction k with
  | zero => exact h.begins
  | succ k ih =>
      have hk : Begins k (run (start d k)) := ih fun i hi => hlen i (Nat.lt_succ_of_lt hi)
      rw [start_succ]
      exact h.next hk (hlen k k.lt_succ_self)

/-- A phase that begins on time also ends on time, if the next one is found when it is due. -/
theorem PassesThrough.len_eq (h : PassesThrough run Phase Begins len) {k : ℕ}
    (hpos : 0 < d (k + 1)) (hf : Follows run Phase d) (hk : Begins k (run (start d k))) :
    len k = some (d k) := by
  have hdue : Phase (k + 1) (run (start d k + d k)) := by
    rw [← start_succ]
    apply hf _ _ le_rfl
    rw [start_succ d (k + 1)]
    omega
  have hends : ∃ l, len k = some l ∧ l ≤ d k := by
    by_contra hnot
    push Not at hnot
    have hstill : Phase k (run (start d k + d k)) := h.during hk hnot
    exact absurd (h.unique hstill hdue) (Nat.succ_ne_self k).symm
  obtain ⟨l, hl, hle⟩ := hends
  rcases hle.eq_or_lt with rfl | hlt
  · exact hl
  -- the next phase has begun too early
  have hnext : Begins (k + 1) (run (start d k + l)) := h.next hk hl
  have hearly : Phase k (run (start d k + l)) := by
    apply hf
    · exact Nat.le_add_right _ _
    · rw [start_succ]
      omega
  have hphase : Phase (k + 1) (run (start d k + l + 0)) := h.during hnext fun _ hl' => h.pos hl'
  exact absurd (h.unique hearly hphase) (Nat.succ_ne_self k).symm

theorem PassesThrough.follows_iff (h : PassesThrough run Phase Begins len)
    (hd : ∀ k, 0 < d k) : Follows run Phase d ↔ ∀ k, len k = some (d k) := by
  constructor
  · intro hf k
    induction k using Nat.strongRecOn with
    | ind k ih => exact h.len_eq (hd (k + 1)) hf (h.begins_start ih)
  · intro hlen n k hle hlt
    have hk : Begins k (run (start d k)) := h.begins_start fun i _ => hlen i
    obtain ⟨j, rfl⟩ := Nat.exists_eq_add_of_le hle
    apply h.during hk
    intro l hl
    obtain rfl := Option.some.inj ((hlen k).symm.trans hl)
    rw [start_succ] at hlt
    omega

end Phases
