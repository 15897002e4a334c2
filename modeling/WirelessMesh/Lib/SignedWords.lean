import Mathlib.Data.BitVec
import Mathlib.Tactic.Ring

/-!
# Integers in machine words

Taking an integer to its low bits is a ring homomorphism, so a word computed by sums,
differences and products is the low bits of the same expression over the integers, whatever the
intermediate results are. Read as a signed word it is the integer itself when that one is small
enough.
-/

namespace SignedWords

variable {w : ℕ}

theorem toInt_intCast {a : ℤ} (hle : -2 ^ w ≤ 2 * a) (hlt : 2 * a < 2 ^ w) :
    (a : BitVec w).toInt = a := by
  change (BitVec.ofInt w a).toInt = a
  rw [BitVec.toInt_ofInt]
  apply Int.bmod_eq_of_le_mul_two
  · push_cast
    omega
  · push_cast
    omega

/-- A word that is the low bits of a small integer, read as a signed word. -/
theorem toInt_of_eq_intCast {x : BitVec w} {a : ℤ} (h : x = (a : BitVec w))
    (hle : -2 ^ w ≤ 2 * a) (hlt : 2 * a < 2 ^ w) : x.toInt = a := by
  rw [h, toInt_intCast hle hlt]

theorem toNat_of_eq_intCast {x : BitVec w} {n : ℕ} (h : x = ((n : ℤ) : BitVec w))
    (hlt : n < 2 ^ w) : x.toNat = n := by
  rw [h, Int.cast_natCast, BitVec.natCast_eq_ofNat, BitVec.toNat_ofNat, Nat.mod_eq_of_lt hlt]

theorem toInt_ofNat {n : ℕ} (h : 2 * n < 2 ^ w) : (BitVec.ofNat w n).toInt = n := by
  have hnat : (BitVec.ofNat w n).toNat = n := by
    rw [BitVec.toNat_ofNat, Nat.mod_eq_of_lt (by omega)]
  rw [BitVec.toInt_eq_toNat_of_lt (hnat.symm ▸ h), hnat]

theorem ofNat_ne_zero {n : ℕ} (hpos : 0 < n) (hlt : n < 2 ^ w) : BitVec.ofNat w n ≠ 0 := by
  intro hzero
  have hnat := congrArg BitVec.toNat hzero
  rw [BitVec.toNat_ofNat, Nat.mod_eq_of_lt hlt] at hnat
  simp at hnat
  omega

theorem intCast_of_toNat {x : BitVec w} {n : ℕ} (h : x.toNat = n) :
    ((n : ℤ) : BitVec w) = x := by
  rw [← h]
  simp

end SignedWords
