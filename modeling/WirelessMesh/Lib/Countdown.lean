import Mathlib.Data.BitVec
import Mathlib.Algebra.Order.Floor.Div
import Mathlib.Tactic.Linarith

/-!
# Countdown timers on machine words

A timer is a signed word that every tick lowers by the same step. It runs out at the tick that
leaves nothing or less than nothing of it. A word that is at most one step away from the
smallest number wraps around at its first tick, and counts on from above.
-/

namespace Countdown

variable {w c n : ℕ} {v : BitVec w}

def after (c n : ℕ) (v : BitVec w) : BitVec w := v - BitVec.ofNat w (n * c)

def RunsOut (c : ℕ) (v : BitVec w) : Prop := (v - BitVec.ofNat w c).toInt ≤ 0

instance : Decidable (RunsOut c v) := inferInstanceAs (Decidable (_ ≤ _))

/-- The timer after the next tick. It stands still at zero, and only there. -/
def tick (c : ℕ) (v : BitVec w) : BitVec w := if v = 0 then 0 else v - BitVec.ofNat w c

def expiries (c : ℕ) : ℕ → BitVec w → ℕ
  | 0, _ => 0
  | n + 1, v => (if v ≠ 0 ∧ RunsOut c v then 1 else 0) + expiries c n (tick c v)

def length (c : ℕ) (v : BitVec w) : ℕ :=
  if 2 * v.toNat < 2 ^ w + 2 * c then v.toNat ⌈/⌉ c else 1

@[simp] theorem after_zero (c : ℕ) (v : BitVec w) : after c 0 v = v := by
  simp [after]

theorem after_succ (c n : ℕ) (v : BitVec w) :
    after c (n + 1) v = after c n v - BitVec.ofNat w c := by
  rw [after, after, BitVec.sub_sub, Nat.succ_mul, BitVec.ofNat_add]

theorem expiries_stopped (c n : ℕ) : expiries c n (0 : BitVec w) = 0 := by
  induction n with
  | zero => rfl
  | succ n ih => rw [expiries, tick, if_pos rfl, ih, if_neg fun h => h.1 rfl]

theorem expiries_add (c m n : ℕ) (v : BitVec w) :
    expiries c (m + n) v = expiries c m v + expiries c n ((tick c)^[m] v) := by
  induction m generalizing v with
  | zero => simp [expiries]
  | succ m ih =>
      rw [Nat.succ_add, expiries, ih, expiries, Function.iterate_succ_apply, Nat.add_assoc]

theorem toNat_sub_step (h : c ≤ v.toNat) : (v - BitVec.ofNat w c).toNat = v.toNat - c := by
  have hc : (BitVec.ofNat w c).toNat = c := by
    rw [BitVec.toNat_ofNat, Nat.mod_eq_of_lt (h.trans_lt v.isLt)]
  rw [BitVec.toNat_sub_of_le (by rw [BitVec.le_def, hc]; exact h), hc]

theorem toNat_after (h : n * c ≤ v.toNat) : (after c n v).toNat = v.toNat - n * c :=
  toNat_sub_step h

theorem toInt_nonpos_iff : v.toInt ≤ 0 ↔ v.toNat = 0 ∨ 2 ^ w ≤ 2 * v.toNat := by
  have hlt := v.isLt
  rw [BitVec.toInt_eq_toNat_cond]
  generalize 2 ^ w = size at *
  split_ifs with h <;> omega

theorem toNat_of_toInt_pos (h : 0 < v.toInt) : (v.toNat : ℤ) = v.toInt ∧ 2 * v.toNat < 2 ^ w := by
  have hsmall : ¬(v.toNat = 0 ∨ 2 ^ w ≤ 2 * v.toNat) := fun hle =>
    absurd (toInt_nonpos_iff.mpr hle) (not_le.mpr h)
  have hlt : 2 * v.toNat < 2 ^ w := by omega
  exact ⟨(BitVec.toInt_eq_toNat_of_lt hlt).symm, hlt⟩

theorem runsOut_iff_of_le (h : c ≤ v.toNat) :
    RunsOut c v ↔ v.toNat = c ∨ 2 ^ w ≤ 2 * (v.toNat - c) := by
  rw [RunsOut, toInt_nonpos_iff, toNat_sub_step h]
  omega

theorem runsOut_of_lt (hc : 2 * c ≤ 2 ^ w) (h : v.toNat < c) : RunsOut c v := by
  have hlt := v.isLt
  have hcw : (BitVec.ofNat w c).toNat = c := by
    rw [BitVec.toNat_ofNat, Nat.mod_eq_of_lt (by omega)]
  have hsub : (v - BitVec.ofNat w c).toNat = 2 ^ w - (c - v.toNat) := by
    rw [BitVec.toNat_sub_of_lt (by rw [BitVec.lt_def, hcw]; exact h), hcw]
  rw [RunsOut, toInt_nonpos_iff, hsub]
  omega

section Length

variable (hc : 0 < c) (hcw : 2 * c ≤ 2 ^ w)
include hc

theorem length_pos (h : v ≠ 0) : 0 < length c v := by
  unfold length
  split_ifs with hlt
  · by_contra hzero
    have hle : v.toNat ≤ c • 0 := (ceilDiv_le_iff_le_smul hc).mp (not_lt.mp hzero)
    apply h
    apply BitVec.eq_of_toNat_eq
    simpa using hle
  · exact Nat.one_pos

/-- Before the timer runs out it is more than one step above zero. -/
theorem mul_lt_of_lt_length (hlt : 2 * v.toNat < 2 ^ w + 2 * c) (h : n < length c v) :
    n * c < v.toNat := by
  rw [length, if_pos hlt] at h
  by_contra hle
  have : v.toNat ⌈/⌉ c ≤ n := by
    rw [ceilDiv_le_iff_le_smul hc, smul_eq_mul, Nat.mul_comm]
    exact not_lt.mp hle
  omega

theorem le_length_mul (hlt : 2 * v.toNat < 2 ^ w + 2 * c) : v.toNat ≤ length c v * c := by
  rw [length, if_pos hlt, Nat.mul_comm]
  exact (ceilDiv_le_iff_le_smul (b := v.toNat) hc).mp le_rfl

theorem after_ne_zero (h : n < length c v) (hv : v ≠ 0) : after c n v ≠ 0 := by
  by_cases hlt : 2 * v.toNat < 2 ^ w + 2 * c
  · have hmul := mul_lt_of_lt_length hc hlt h
    intro hzero
    have hnat := toNat_after hmul.le
    rw [hzero] at hnat
    simp only [BitVec.ofNat_eq_ofNat, BitVec.toNat_ofNat, Nat.zero_mod] at hnat
    omega
  · rw [length, if_neg hlt, Nat.lt_one_iff] at h
    rwa [h, after_zero]

theorem iterate_tick (h : n < length c v) (hv : v ≠ 0) : (tick c)^[n] v = after c n v := by
  induction n with
  | zero => rw [Function.iterate_zero_apply, after_zero]
  | succ n ih =>
      have hlt : n < length c v := by omega
      rw [Function.iterate_succ_apply', ih hlt, after_succ, tick, if_neg (after_ne_zero hc hlt hv)]

theorem not_runsOut_after (h : n + 1 < length c v) : ¬RunsOut c (after c n v) := by
  by_cases hlt : 2 * v.toNat < 2 ^ w + 2 * c
  · have hmul : (n + 1) * c < v.toNat := mul_lt_of_lt_length hc hlt h
    rw [Nat.succ_mul] at hmul
    have hnat : (after c n v).toNat = v.toNat - n * c := toNat_after (by omega)
    rw [runsOut_iff_of_le (by omega), hnat]
    omega
  · rw [length, if_neg hlt] at h
    omega

include hcw

theorem runsOut_after (h : n + 1 = length c v) : RunsOut c (after c n v) := by
  by_cases hlt : 2 * v.toNat < 2 ^ w + 2 * c
  · have hmul : n * c < v.toNat := mul_lt_of_lt_length hc hlt (by omega)
    have hle := le_length_mul hc hlt
    rw [← h, Nat.succ_mul] at hle
    have hnat : (after c n v).toNat = v.toNat - n * c := toNat_after hmul.le
    rcases Nat.lt_or_ge (after c n v).toNat c with hless | hmore
    · exact runsOut_of_lt hcw hless
    · rw [runsOut_iff_of_le hmore]
      omega
  · obtain rfl : n = 0 := by
      rw [length, if_neg hlt] at h
      omega
    rw [after_zero, runsOut_iff_of_le (by omega)]
    omega

/-- A timer that has not run out has not reached its last tick. -/
theorem lt_length_of_expiries (hv : v ≠ 0) (h : expiries c n v = 0) : n < length c v := by
  by_contra hle
  obtain ⟨m, hm⟩ := Nat.exists_eq_add_of_lt (length_pos hc hv)
  obtain ⟨k, rfl⟩ := Nat.exists_eq_add_of_le (not_lt.mp hle)
  rw [Nat.zero_add] at hm
  have hlast : (tick c)^[m] v = after c m v := iterate_tick hc (by omega) hv
  have hdue : after c m v ≠ 0 ∧ RunsOut c (after c m v) :=
    ⟨after_ne_zero hc (by omega) hv, runsOut_after hc hcw hm.symm⟩
  rw [hm, Nat.add_assoc, expiries_add, hlast, Nat.add_comm 1, expiries, if_pos hdue] at h
  omega

/-- A timer that is set to so many samples lasts as long as it should unless it overflows. -/
theorem length_ofNat_iff {m : ℕ} (hm : 0 < m) :
    (BitVec.ofNat w m ≠ 0 ∧ length c (BitVec.ofNat w m) = m ⌈/⌉ c) ↔
      2 * m < 2 ^ w + 2 * c := by
  have hword : (BitVec.ofNat w m).toNat = m % 2 ^ w := BitVec.toNat_ofNat m w
  constructor
  · rintro ⟨hne, hlength⟩
    have hlength_pos := length_pos hc hne
    have hle : m ≤ c * (m ⌈/⌉ c) := (ceilDiv_le_iff_le_smul hc).mp le_rfl
    by_contra hover
    by_cases hsmall : 2 * (BitVec.ofNat w m).toNat < 2 ^ w + 2 * c
    · -- the word is at least `2 ^ w` too small
      have hlast : (m ⌈/⌉ c - 1) * c < (BitVec.ofNat w m).toNat :=
        mul_lt_of_lt_length hc hsmall (by omega)
      rw [Nat.sub_mul, Nat.one_mul, Nat.mul_comm] at hlast
      have hdiv := Nat.div_add_mod m (2 ^ w)
      rcases Nat.eq_zero_or_pos (m / 2 ^ w) with hzero | hmany
      · rw [hzero] at hdiv
        omega
      · have hge := Nat.le_mul_of_pos_right (2 ^ w) hmany
        omega
    · rw [length, if_neg hsmall] at hlength
      rw [← hlength, Nat.mul_one] at hle
      omega
  · intro hno
    have hlt : m % 2 ^ w = m := Nat.mod_eq_of_lt (by omega)
    rw [hlt] at hword
    refine ⟨?_, ?_⟩
    · intro hzero
      rw [hzero] at hword
      have hnone : (0 : BitVec w).toNat = 0 := BitVec.toNat_zero
      omega
    · rw [length, hword, if_pos hno]

/-- A positive timer ends at zero exactly if it was a multiple of the step. -/
theorem after_length_eq_zero_iff (hpos : 0 < v.toNat) (hlt : 2 * v.toNat < 2 ^ w) :
    after c (length c v) v = 0 ↔ c ∣ v.toNat := by
  have hv : v ≠ 0 := by
    rintro rfl
    simp at hpos
  have hle : v.toNat ≤ length c v * c := le_length_mul hc (by omega)
  have hless : length c v * c < v.toNat + c := by
    obtain ⟨n, hn⟩ := Nat.exists_eq_succ_of_ne_zero (length_pos hc hv).ne'
    have hlast : n * c < v.toNat := mul_lt_of_lt_length hc (by omega) (by omega)
    rw [hn, Nat.succ_mul]
    omega
  have hzero : after c (length c v) v = 0 ↔ v.toNat = length c v * c := by
    rw [after, BitVec.ofNat_eq_ofNat, BitVec.sub_eq_iff_eq_add, BitVec.zero_add,
      ← BitVec.toNat_inj, BitVec.toNat_ofNat, Nat.mod_eq_of_lt (by omega)]
  rw [hzero]
  constructor
  · exact fun h => h ▸ Nat.dvd_mul_left c _
  · intro hdvd
    have hrest : c ∣ length c v * c - v.toNat := Nat.dvd_sub (Nat.dvd_mul_left c _) hdvd
    have := Nat.eq_zero_of_dvd_of_lt hrest (by omega)
    omega

end Length

end Countdown
