import Mathlib.Data.Nat.Find
import Mathlib.Data.Set.Function
import Mathlib.Order.Interval.Set.Defs
import Mathlib.Tactic.Common

/-!
# Trails through numbered places

Each place leads to one place: to itself, to the one after it or, from the last place of a
stretch, back into the stretch. A trail from the start of the stretch stays in it unless
every place leads on and the last one leads out.
-/

namespace Trail

variable {next : ℕ → ℕ} {a b : ℕ}

/-- The trail from the first of the places `a`, …, `b - 1` never leaves them. -/
def StaysIn (next : ℕ → ℕ) (a b : ℕ) : Prop := ∀ n, next^[n] a ∈ Set.Ico a b

theorem staysIn_of_mapsTo {c : ℕ} (hac : a < c) (hcb : c ≤ b)
    (h : Set.MapsTo next (Set.Ico a c) (Set.Ico a c)) : StaysIn next a b := by
  intro n
  obtain ⟨hlow, hhigh⟩ := h.iterate n ⟨le_rfl, hac⟩
  exact ⟨hlow, hhigh.trans_le hcb⟩

/-- As long as every place leads on, the trail takes one place after the other. -/
theorem iterate_eq (h : ∀ i, a ≤ i → i < b → next i = i + 1) {n : ℕ} (hn : a + n ≤ b) :
    next^[n] a = a + n := by
  induction n with
  | zero => rfl
  | succ n ih =>
      rw [Function.iterate_succ_apply', ih (by omega), h (a + n) (by omega) (by omega)]
      rfl

theorem staysIn_iff (hab : a < b) (hstep : ∀ i, a ≤ i → i + 1 < b → next i = i ∨ next i = i + 1)
    (hlast : next (b - 1) = b ∨ next (b - 1) ∈ Set.Ico a b) :
    StaysIn next a b ↔ next (b - 1) ∈ Set.Ico a b ∨ ∃ i, a ≤ i ∧ i + 1 < b ∧ next i = i := by
  constructor
  · intro hstays
    by_contra hout
    obtain ⟨hend, hmoves⟩ := not_or.mp hout
    have hon : ∀ i, a ≤ i → i < b → next i = i + 1 := by
      intro i hlow hhigh
      by_cases hi : i + 1 < b
      · exact (hstep i hlow hi).resolve_left fun hself => hmoves ⟨i, hlow, hi, hself⟩
      · obtain rfl : i = b - 1 := by omega
        have hleads := hlast.resolve_right hend
        omega
    have hlt := (hstays (b - a)).2
    rw [iterate_eq hon (by omega)] at hlt
    omega
  · rintro (hback | hself)
    · refine staysIn_of_mapsTo hab le_rfl ?_
      rintro i ⟨hlow, hhigh⟩
      by_cases hi : i + 1 < b
      · rcases hstep i hlow hi with heq | heq <;> rw [heq] <;> constructor <;> omega
      · obtain rfl : i = b - 1 := by omega
        exact hback
    · -- the first place that leads to itself ends the trail
      classical
      obtain ⟨hlow, hhigh, heq⟩ := Nat.find_spec hself
      refine staysIn_of_mapsTo (c := Nat.find hself + 1) (by omega) (by omega) ?_
      rintro i ⟨hi, hle⟩
      by_cases hfirst : i = Nat.find hself
      · rw [hfirst, heq]
        constructor <;> omega
      · have hbefore : ¬(a ≤ i ∧ i + 1 < b ∧ next i = i) := Nat.find_min hself (by omega)
        have hon := (hstep i hi (by omega)).resolve_left fun h => hbefore ⟨hi, by omega, h⟩
        rw [hon]
        constructor <;> omega

end Trail
