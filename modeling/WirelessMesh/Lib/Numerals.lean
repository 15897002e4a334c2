import Mathlib.Data.List.Basic
import Mathlib.Data.Nat.Digits.Defs

/-!
# Integer constants

Integers are written as in C: hexadecimal digits behind `0x` or `0X`, octal digits behind `0`, or
decimal digits of which the first is not `0`. A machine that reads the digits from left to right
into a word ends with the low bits of the integer.
-/

namespace Numerals

def digit (c : Char) : Option ℕ :=
  if '0' ≤ c ∧ c ≤ '9' then some (c.toNat - '0'.toNat)
  else if 'a' ≤ c ∧ c ≤ 'f' then some (c.toNat - 'a'.toNat + 10)
  else if 'A' ≤ c ∧ c ≤ 'F' then some (c.toNat - 'A'.toNat + 10)
  else none

def weight (c : Char) : ℕ := (digit c).getD 0

def IsDigit (base : ℕ) (c : Char) : Prop := ∃ d ∈ digit c, d < base

instance (base : ℕ) (c : Char) : Decidable (IsDigit base c) :=
  inferInstanceAs (Decidable (∃ d ∈ digit c, d < base))

theorem char_le_iff {a b : Char} : a ≤ b ↔ a.toNat ≤ b.toNat := Iff.rfl

theorem isDigit_of_all {base : ℕ} {digits : List Char}
    (h : (digits.all fun c => decide (IsDigit base c)) = true) : ∀ c ∈ digits, IsDigit base c := by
  intro c hc
  exact of_decide_eq_true (List.all_eq_true.mp h c hc)

/-- The integer that the digits stand for, the first one being the highest. -/
def value (base : ℕ) (digits : List Char) : ℕ := Nat.ofDigits base (digits.map weight).reverse

inductive Numeral : List Char → ℕ → Prop
  | decimal {c : Char} {digits : List Char} (hfirst : c ≠ '0')
      (hdigits : ∀ x ∈ c :: digits, IsDigit 10 x) : Numeral (c :: digits) (value 10 (c :: digits))
  | octal {digits : List Char} (hdigits : ∀ x ∈ digits, IsDigit 8 x) :
      Numeral ('0' :: digits) (value 8 digits)
  | hexadecimal {mark : Char} {digits : List Char} (hmark : mark = 'x' ∨ mark = 'X')
      (hsome : digits ≠ []) (hdigits : ∀ x ∈ digits, IsDigit 16 x) :
      Numeral ('0' :: mark :: digits) (value 16 digits)

/-! ## Reading from left to right -/

def push (base : ℕ) (n : ℕ) (c : Char) : ℕ := n * base + weight c

theorem value_eq_foldl (base : ℕ) (digits : List Char) :
    value base digits = digits.foldl (push base) 0 := by
  rw [value, Nat.ofDigits_eq_foldr, List.foldr_reverse, List.foldl_map]
  congr 1
  funext n c
  rw [push, Nat.cast_id, Nat.mul_comm, Nat.add_comm]

variable {w : ℕ}

def pushWord (base : ℕ) (v : BitVec w) (c : Char) : BitVec w :=
  v * BitVec.ofNat w base + BitVec.ofNat w (weight c)

/-- The digits read into a word are the low bits of the integer. -/
theorem foldl_pushWord (base : ℕ) (digits : List Char) (n : ℕ) :
    digits.foldl (pushWord base) (BitVec.ofNat w n) =
      BitVec.ofNat w (digits.foldl (push base) n) := by
  induction digits generalizing n with
  | nil => rfl
  | cons c digits ih =>
      have hstep : pushWord base (BitVec.ofNat w n) c = BitVec.ofNat w (push base n c) := by
        rw [pushWord, push, BitVec.ofNat_add, BitVec.ofNat_mul]
      rw [List.foldl_cons, List.foldl_cons, hstep]
      exact ih (push base n c)

theorem foldl_pushWord_zero (base : ℕ) (digits : List Char) :
    digits.foldl (pushWord base) (0 : BitVec w) = BitVec.ofNat w (value base digits) := by
  rw [value_eq_foldl]
  exact foldl_pushWord base digits 0

theorem head_toDigits {n : ℕ} (hn : n ≠ 0) : (Nat.toDigits 10 n).head? ≠ some '0' := by
  induction n using Nat.strongRecOn with
  | ind n ih =>
      by_cases hlt : n < 10
      · rw [Nat.toDigits_of_lt_base hlt]
        simpa [Nat.digitChar_eq_zero] using hn
      · rw [Nat.toDigits_of_base_le (by decide) (not_lt.mp hlt),
          List.head?_append_of_ne_nil _ Nat.toDigits_ne_nil]
        exact ih (n / 10) (by omega) (by omega)

end Numerals
