import Mathlib.Data.Nat.ModEq
import Mathlib.Tactic.Common

/-!
# Time slots

Time is divided into slots of one length, numbered from zero, and a party owns the slots whose
number has a given remainder. What it sends keeps a guard time from both ends of a slot it owns.
-/

namespace TimeSlots

/-- What lasts for `d` from the time `x` stays in slot `k` and keeps `g` from its ends. -/
def Within (len g k x d : ℕ) : Prop := k * len + g ≤ x ∧ x + d + g ≤ (k + 1) * len

def InOwnSlot (len g n m x d : ℕ) : Prop := ∃ k, k % n = m ∧ Within len g k x d

variable {len g k n m a t d : ℕ}

/-- A time that is `t` behind the start of slot `a` is in this slot. A moment at its start is at
the end of the slot before as well. -/
theorem within_iff (ht : t < len) : Within len g k (a * len + t) d ↔
    (k = a ∧ g ≤ t ∧ t + d + g ≤ len) ∨ (k + 1 = a ∧ t = 0 ∧ d = 0 ∧ g = 0) := by
  have hsucc (j : ℕ) : (j + 1) * len = j * len + len := Nat.succ_mul j len
  constructor
  · rintro ⟨hstart, hstop⟩
    have hle : k < a + 1 := by
      apply Nat.lt_of_mul_lt_mul_right (a := len)
      rw [hsucc]
      omega
    have hge : a ≤ k + 1 := by
      apply Nat.le_of_mul_le_mul_right (c := len) _ (by omega)
      omega
    obtain rfl | rfl : k = a ∨ k + 1 = a := by omega
    · rw [hsucc] at hstop
      exact .inl ⟨rfl, by omega, by omega⟩
    · exact .inr ⟨rfl, by omega, by omega, by omega⟩
  · rintro (⟨rfl, hstart, hstop⟩ | ⟨rfl, rfl, rfl, rfl⟩)
    · refine ⟨by omega, ?_⟩
      rw [hsucc]
      omega
    · refine ⟨?_, by omega⟩
      rw [hsucc]
      omega

theorem inOwnSlot_iff (ht : t < len) : InOwnSlot len g n m (a * len + t) d ↔
    (a % n = m ∧ g ≤ t ∧ t + d + g ≤ len) ∨
      (t = 0 ∧ d = 0 ∧ g = 0 ∧ ∃ k, k + 1 = a ∧ k % n = m) := by
  constructor
  · rintro ⟨k, hk, hwithin⟩
    rcases (within_iff ht).mp hwithin with ⟨rfl, h⟩ | ⟨rfl, hzero, hd, hg⟩
    · exact .inl ⟨hk, h⟩
    · exact .inr ⟨hzero, hd, hg, k, rfl, hk⟩
  · rintro (⟨ha, h⟩ | ⟨hzero, hd, hg, k, hk, hown⟩)
    · exact ⟨a, ha, (within_iff ht).mpr (.inl ⟨rfl, h⟩)⟩
    · exact ⟨k, hown, (within_iff ht).mpr (.inr ⟨hk, hzero, hd, hg⟩)⟩

/-! ## Slots of a frame -/

theorem add_mod_eq_iff {n m q : ℕ} (hm : m < n) : (q + m) % n = m ↔ q % n = 0 := by
  have hself : m % n = m := Nat.mod_eq_of_lt hm
  constructor
  · intro h
    have hmod : q + m ≡ 0 + m [MOD n] := by rw [Nat.ModEq, h, zero_add, hself]
    have hcancel := Nat.ModEq.add_right_cancel' m hmod
    rwa [Nat.ModEq, Nat.zero_mod] at hcancel
  · intro h
    have hmod : q ≡ 0 [MOD n] := h.trans (Nat.zero_mod n).symm
    have hsum : q + m ≡ 0 + m [MOD n] := hmod.add_right m
    rwa [Nat.ModEq, zero_add, hself] at hsum

theorem exists_pred_mod_iff {n m q : ℕ} (hm : m < n) (hpos : 0 < q + m) :
    (∃ k, k + 1 = q + m ∧ k % n = m) ↔ q % n = 1 % n := by
  have hself : m % n = m := Nat.mod_eq_of_lt hm
  constructor
  · rintro ⟨k, hk, hmod⟩
    have hkm : k ≡ m [MOD n] := by rw [Nat.ModEq, hmod, hself]
    have hsum : q + m ≡ 1 + m [MOD n] := by
      rw [← hk, Nat.add_comm 1]
      exact hkm.add_right 1
    exact Nat.ModEq.add_right_cancel' m hsum
  · intro h
    have hsum : q + m ≡ 1 + m [MOD n] := Nat.ModEq.add_right m h
    refine ⟨q + m - 1, by omega, ?_⟩
    have hpred : q + m - 1 + 1 ≡ m + 1 [MOD n] := by
      rwa [Nat.sub_add_cancel hpos, Nat.add_comm m]
    have hcancel := Nat.ModEq.add_right_cancel' 1 hpred
    rwa [Nat.ModEq, hself] at hcancel

end TimeSlots
