import Mathlib.Tactic.Ring
import Mathlib.Tactic.Linarith
import Mathlib.Tactic.NormNum

/-!
# Serial-number order on machine words

Sequence numbers and tick counters wrap, and are compared by the sign of their
difference read as a signed word. The relation is not transitive on the whole
circle; the lemmas say what it gives for words that are a known distance apart
and for words in the lower half, where it is the usual order.
-/

namespace SerialOrder

variable {w : ℕ}

def ahead (a b : BitVec w) : ℤ := (a - b).toInt

@[simp] theorem ahead_self (a : BitVec w) : ahead a a = 0 := by
  simp [ahead]

/-- Moving forward by `k`, less than half the circle, is being ahead by `k`. -/
theorem ahead_add (a : BitVec w) {k : ℕ} (hk : 2 * k < 2 ^ w) :
    ahead (a + BitVec.ofNat w k) a = k := by
  have h : a + BitVec.ofNat w k - a = BitVec.ofNat w k := by
    rw [BitVec.add_comm, BitVec.add_sub_cancel]
  have hlt : k < 2 ^ w := by omega
  rw [ahead, h, BitVec.toInt_eq_toNat_of_lt] <;> simp [Nat.mod_eq_of_lt hlt]
  exact hk

/-- The low words of two counts less than half the circle apart. -/
theorem ahead_ofNat {a b : ℕ} (hab : b ≤ a) (h : 2 * (a - b) < 2 ^ w) :
    ahead (BitVec.ofNat w a) (BitVec.ofNat w b) = a - b := by
  have ha : BitVec.ofNat w a = BitVec.ofNat w b + BitVec.ofNat w (a - b) := by
    rw [← BitVec.ofNat_add, Nat.add_sub_cancel' hab]
  rw [ha, ahead_add _ h]
  omega

/-- The low words of two integers less than half the circle apart. -/
theorem ahead_ofInt {a b : ℤ} (hle : -2 ^ w ≤ 2 * (a - b)) (hlt : 2 * (a - b) < 2 ^ w) :
    ahead (BitVec.ofInt w a) (BitVec.ofInt w b) = a - b := by
  rw [ahead, BitVec.toInt_sub, BitVec.toInt_ofInt, BitVec.toInt_ofInt, Int.bmod_sub_bmod,
    Int.sub_bmod_bmod]
  apply Int.bmod_eq_of_le_mul_two
  · push_cast
    omega
  · push_cast
    omega

/-- In the lower half of the circle the order is the one on naturals. -/
theorem ahead_of_lt {a b : BitVec w} (ha : 2 * a.toNat < 2 ^ w) (hb : 2 * b.toNat < 2 ^ w) :
    ahead a b = (a.toNat : ℤ) - b.toNat := by
  rw [ahead, BitVec.toInt_sub, BitVec.toInt_eq_toNat_of_lt ha, BitVec.toInt_eq_toNat_of_lt hb]
  have ha' : 2 * (a.toNat : ℤ) < 2 ^ w := by exact_mod_cast ha
  have hb' : 2 * (b.toNat : ℤ) < 2 ^ w := by exact_mod_cast hb
  apply Int.bmod_eq_of_le_mul_two <;> push_cast <;> omega

end SerialOrder
