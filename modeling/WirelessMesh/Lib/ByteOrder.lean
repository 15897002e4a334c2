import Mathlib.Algebra.Ring.Nat
import Mathlib.Data.List.Basic
import Mathlib.Tactic.Common

/-!
# Words in memory

A machine keeps the four bytes of a word in one of two orders. What one machine
stores and another loads is the same word when both use the same order; the order
of the network is the big one.
-/

inductive ByteOrder where
  | big
  | little
  deriving DecidableEq, Repr

namespace ByteOrder

def store32 (order : ByteOrder) (x : BitVec 32) : List (BitVec 8) :=
  match order with
  | .big => [x.extractLsb' 24 8, x.extractLsb' 16 8, x.extractLsb' 8 8, x.extractLsb' 0 8]
  | .little => [x.extractLsb' 0 8, x.extractLsb' 8 8, x.extractLsb' 16 8, x.extractLsb' 24 8]

def load32 (order : ByteOrder) : List (BitVec 8) → BitVec 32
  | a :: b :: c :: d :: _ =>
      match order with
      | .big => a ++ b ++ c ++ d
      | .little => d ++ c ++ b ++ a
  | _ => 0

/-- A word put into the order of the network (`htonl`); `ntohl` is the same function. -/
def hton32 (order : ByteOrder) (x : BitVec 32) : BitVec 32 := load32 order (store32 .big x)

/-- A half word put into the order of the network (`htons`, `ntohs`). -/
def hton16 (order : ByteOrder) (x : BitVec 16) : BitVec 16 :=
  match order with
  | .big => x
  | .little => x.extractLsb' 0 8 ++ x.extractLsb' 8 8

@[simp] theorem length_store32 (order : ByteOrder) (x : BitVec 32) :
    (store32 order x).length = 4 := by
  cases order <;> rfl

theorem append_extractLsb' (x : BitVec 32) :
    x.extractLsb' 24 8 ++ x.extractLsb' 16 8 ++ x.extractLsb' 8 8 ++ x.extractLsb' 0 8 = x := by
  ext i hi
  simp only [BitVec.getElem_append, BitVec.getElem_extractLsb']
  grind

@[simp] theorem load32_store32 (order : ByteOrder) (x : BitVec 32) (rest : List (BitVec 8)) :
    load32 order (store32 order x ++ rest) = x := by
  cases order <;> exact append_extractLsb' x

theorem store32_load32 (order : ByteOrder) (a b c d : BitVec 8) (rest : List (BitVec 8)) :
    store32 order (load32 order (a :: b :: c :: d :: rest)) = [a, b, c, d] := by
  have hword (w x y z : BitVec 8) : (w ++ x ++ y ++ z).extractLsb' 24 8 = w ∧
      (w ++ x ++ y ++ z).extractLsb' 16 8 = x ∧ (w ++ x ++ y ++ z).extractLsb' 8 8 = y ∧
      (w ++ x ++ y ++ z).extractLsb' 0 8 = z := by
    refine ⟨?_, ?_, ?_, ?_⟩ <;> ext i hi <;>
      simp only [BitVec.getElem_extractLsb', BitVec.getLsbD_append] <;> grind
  cases order with
  | big =>
      obtain ⟨h₁, h₂, h₃, h₄⟩ := hword a b c d
      simp only [store32, load32, h₁, h₂, h₃, h₄]
  | little =>
      obtain ⟨h₁, h₂, h₃, h₄⟩ := hword d c b a
      simp only [store32, load32, h₁, h₂, h₃, h₄]

@[simp] theorem hton32_big (x : BitVec 32) : hton32 .big x = x := by
  unfold hton32
  simpa using load32_store32 .big x []

/-- The number that four bytes are, in the order of the network. -/
theorem toNat_load32_big (a b c d : BitVec 8) (rest : List (BitVec 8)) :
    (load32 .big (a :: b :: c :: d :: rest)).toNat =
      a.toNat * 2 ^ 24 + b.toNat * 2 ^ 16 + c.toNat * 2 ^ 8 + d.toNat := by
  have happend {n : ℕ} (x : BitVec n) (y : BitVec 8) :
      (x ++ y).toNat = x.toNat * 2 ^ 8 + y.toNat := by
    rw [BitVec.toNat_append, ← Nat.shiftLeft_add_eq_or_of_lt y.isLt, Nat.shiftLeft_eq]
  simp only [load32, happend]
  omega

@[simp] theorem hton32_hton32 (order : ByteOrder) (x : BitVec 32) :
    hton32 order (hton32 order x) = x := by
  cases order with
  | big => rw [hton32_big, hton32_big]
  | little =>
      -- Stored the other way round, the bytes of the swapped word are those of the word.
      have hbytes : store32 .little (hton32 .little x) = store32 .big x :=
        store32_load32 _ _ _ _ _ _
      have hreverse : store32 .big (hton32 .little x) = store32 .little x := by
        change (store32 .little (hton32 .little x)).reverse = _
        rw [hbytes]
        rfl
      rw [hton32, hreverse]
      simpa using load32_store32 .little x []

end ByteOrder
