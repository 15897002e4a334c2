import Mathlib.Data.List.Basic
import Mathlib.Tactic.Common

/-!
# Ciphers that add a key stream

Adding the same words a second time gives the text back. A cipher that makes its key stream block
by block adds it to the words of a block up to the end of the text.
-/

namespace StreamCipher

variable {w : ℕ}

/-! ## Adding words in -/

def xorBlock (b a : List (BitVec w)) (len : ℕ) : List (BitVec w) :=
  List.zipWith (· ^^^ ·) (b.take len) (a.take len) ++ b.drop len

variable {a b c : List (BitVec w)} {len : ℕ}

theorem length_xorBlock (ha : len ≤ a.length) : (xorBlock b a len).length = b.length := by
  simp only [xorBlock, List.length_append, List.length_zipWith, List.length_take, List.length_drop]
  omega

theorem zipWith_xor_cancel (p k : List (BitVec w)) (h : p.length ≤ k.length) :
    List.zipWith (· ^^^ ·) (List.zipWith (· ^^^ ·) p k) k = p := by
  induction p generalizing k with
  | nil => rfl
  | cons x p ih =>
      cases k with
      | nil => simp at h
      | cons y k =>
          simp only [List.zipWith_cons_cons, BitVec.xor_assoc, BitVec.xor_self, BitVec.xor_zero]
          rw [ih k (by simpa using h)]

/-- The words that are added in, and only the first `len` of them, matter. -/
theorem xorBlock_congr (h : a.take len = c.take len) : xorBlock b a len = xorBlock b c len := by
  rw [xorBlock, xorBlock, h]

theorem take_xorBlock (hb : len ≤ b.length) (ha : len ≤ a.length) :
    (xorBlock b a len).take len = List.zipWith (· ^^^ ·) (b.take len) (a.take len) := by
  apply List.take_left'
  simp only [List.length_zipWith, List.length_take]
  omega

theorem drop_xorBlock (hb : len ≤ b.length) (ha : len ≤ a.length) :
    (xorBlock b a len).drop len = b.drop len := by
  apply List.drop_left'
  simp only [List.length_zipWith, List.length_take]
  omega

/-- The first `len` words come back, whatever follows them. -/
theorem xorBlock_take_append (hb : len ≤ b.length) (ha : len ≤ a.length) (rest : List (BitVec w)) :
    xorBlock ((xorBlock b a len).take len ++ rest) a len = b.take len ++ rest := by
  have hlen : ((xorBlock b a len).take len).length = len := by
    rw [List.length_take, length_xorBlock ha]
    omega
  rw [xorBlock, List.take_left' hlen, List.drop_left' hlen, take_xorBlock hb ha,
    zipWith_xor_cancel _ _ (by simp only [List.length_take]; omega)]

theorem xorBlock_xorBlock (hb : len ≤ b.length) (ha : len ≤ a.length) :
    xorBlock (xorBlock b a len) a len = b := by
  have hsplit : xorBlock b a len = (xorBlock b a len).take len ++ b.drop len := by
    rw [take_xorBlock hb ha, xorBlock]
  rw [hsplit, xorBlock_take_append hb ha, List.take_append_drop]

end StreamCipher
