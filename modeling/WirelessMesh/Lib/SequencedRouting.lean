import Mathlib.Logic.Relation
import Mathlib.Order.Nat
import Mathlib.Tactic.Common

/-!
# Next-hop tables kept apart by sequence numbers

Nodes keep, for every address, at most one next hop and advertise the numbers
under which they know an address. A node takes up an advertised route only under
a number it has never passed. The *peak* of a node for an address is one more
than the largest number it has held, and the *stamp* is the time at which the
peak last rose. Along a next hop the peak rises, or it stays and the stamp falls,
so that no chain of next hops closes.
-/

namespace SequencedRouting

variable {Node Addr : Type*}

structure State (Node Addr : Type*) where
  next : Node → Addr → Option Addr
  peak : Node → Addr → ℕ
  stamp : Node → Addr → ℕ
  clock : ℕ
  offered : Node → Addr → ℕ → Prop

variable (owns : Node → Addr → Prop)

/-- What a step of `n` can make of its entry for `d`: the new next hop and peak. -/
inductive Change (S : State Node Addr) (n : Node) (d : Addr) : Option Addr → ℕ → Prop
  | kept : Change S n d (S.next n d) (S.peak n d)
  | dropped {p : ℕ} (hp : S.peak n d ≤ p) : Change S n d none p
  | adopted {m : Node} {a : Addr} {s : ℕ} (hoff : S.offered m d s) (ha : owns m a)
      (hs : S.peak n d ≤ s) : Change S n d (some a) (s + 1)
  | direct {a : Addr} {p : ℕ} (ha : ∀ m, owns m a → owns m d) (hp : S.peak n d ≤ p) :
      Change S n d (some a) p

/-- One node changes its entries, all at once, and advertises what it then holds. -/
structure Step (S S' : State Node Addr) (n : Node) : Prop where
  others : ∀ m, m ≠ n → ∀ d,
    S'.next m d = S.next m d ∧ S'.peak m d = S.peak m d ∧ S'.stamp m d = S.stamp m d
  change : ∀ d, Change owns S n d (S'.next n d) (S'.peak n d)
  stamped : ∀ d, S'.stamp n d = if S'.peak n d = S.peak n d then S.stamp n d else S'.clock
  tick : S'.clock = S.clock + 1
  home : ∀ d, owns n d → S'.next n d = none
  offers : ∀ m d s, S'.offered m d s →
    S.offered m d s ∨ (m = n ∧ (owns n d ∨ s < S'.peak n d))

/-- The invariant of all runs. -/
structure Ordered (S : State Node Addr) : Prop where
  past : ∀ n d, S.stamp n d ≤ S.clock
  backed : ∀ m d s, S.offered m d s → owns m d ∨ s < S.peak m d
  home : ∀ n d, owns n d → S.next n d = none
  rises : ∀ n d a m, S.next n d = some a → owns m a →
    owns m d ∨ S.peak n d < S.peak m d ∨ (S.peak n d = S.peak m d ∧ S.stamp m d < S.stamp n d)

def Hop (S : State Node Addr) (d : Addr) (n m : Node) : Prop :=
  ∃ a, S.next n d = some a ∧ owns m a

variable {owns} {S S' : State Node Addr} {n : Node}

theorem Change.peak_le {d : Addr} {hop : Option Addr} {p : ℕ} (h : Change owns S n d hop p) :
    S.peak n d ≤ p := by
  cases h with
  | kept => exact le_rfl
  | dropped hp => exact hp
  | adopted _ _ hs => exact Nat.le_succ_of_le hs
  | direct _ hp => exact hp

namespace Step

theorem peak_mono (h : Step owns S S' n) (m : Node) (d : Addr) : S.peak m d ≤ S'.peak m d := by
  by_cases hm : m = n
  · subst hm
    exact (h.change d).peak_le
  · exact (h.others m hm d).2.1.ge

/-- While the peak of a node stands still, so does its stamp. -/
theorem stamp_of_peak (h : Step owns S S' n) {m : Node} {d : Addr}
    (hp : S'.peak m d = S.peak m d) : S'.stamp m d = S.stamp m d := by
  by_cases hm : m = n
  · subst hm
    rw [h.stamped d, if_pos hp]
  · exact (h.others m hm d).2.2

/-- An entry that did not change still rises to a next hop that may have. -/
theorem rises_of_kept (h : Step owns S S' n) (hS : Ordered owns S) {k m : Node} {d a : Addr}
    (hnext : S.next k d = some a) (hm : owns m a) (hpeak : S'.peak k d = S.peak k d)
    (hstamp : S'.stamp k d = S.stamp k d) :
    owns m d ∨ S'.peak k d < S'.peak m d ∨
      (S'.peak k d = S'.peak m d ∧ S'.stamp m d < S'.stamp k d) := by
  have hmono := h.peak_mono m d
  rcases hS.rises k d a m hnext hm with hown | hlt | ⟨heq, hst⟩
  · exact .inl hown
  · exact .inr (.inl (by omega))
  · by_cases hpm : S'.peak m d = S.peak m d
    · refine .inr (.inr ⟨by omega, ?_⟩)
      rw [h.stamp_of_peak hpm, hstamp]
      exact hst
    · exact .inr (.inl (by omega))

end Step

variable (huniq : ∀ (a : Addr) (m m' : Node), owns m a → owns m' a → m = m')

include huniq in
theorem Ordered.step (hS : Ordered owns S) (h : Step owns S S' n) : Ordered owns S' where
  past := by
    intro m d
    have hpast := hS.past m d
    have htick := h.tick
    by_cases hm : m = n
    · subst hm
      rw [h.stamped d]
      split_ifs <;> omega
    · rw [(h.others m hm d).2.2]
      omega
  backed := by
    intro m d s hoff
    rcases h.offers m d s hoff with hold | ⟨rfl, hnew⟩
    · rcases hS.backed m d s hold with hown | hlt
      · exact .inl hown
      · exact .inr (lt_of_lt_of_le hlt (h.peak_mono m d))
    · exact hnew
  home := by
    intro m d hown
    by_cases hm : m = n
    · subst hm
      exact h.home d hown
    · rw [(h.others m hm d).1]
      exact hS.home m d hown
  rises := by
    intro k d a m hnext hm
    by_cases hk : k = n
    · subst hk
      have hch := h.change d
      have hst := h.stamped d
      have htick := h.tick
      generalize hp' : S'.peak k d = p' at hch hst
      rw [hnext] at hch
      generalize hhop : some a = hop at hch
      cases hch with
      | kept =>
          rw [← hp']
          exact h.rises_of_kept hS hhop.symm hm hp' (by simpa using hst)
      | dropped _ => simp at hhop
      | @adopted m' a' s hoff ha hs =>
          obtain rfl : a = a' := by simpa using hhop
          obtain rfl := huniq a m m' hm ha
          rw [if_neg (by omega)] at hst
          rcases hS.backed m d s hoff with hown | hlt
          · exact .inl hown
          · -- the advertiser is another node: the number is new here and known there
            have hne : m ≠ k := by
              rintro rfl
              omega
            obtain ⟨-, hpm, hsm⟩ := h.others m hne d
            have hpast := hS.past m d
            right
            rw [hpm, hsm, hst]
            omega
      | @direct a' _ ha _ =>
          obtain rfl : a = a' := by simpa using hhop
          exact .inl (ha m hm)
    · obtain ⟨hnx, hpk, hsk⟩ := h.others k hk d
      exact h.rises_of_kept hS (hnx ▸ hnext) hm hpk hsk

/-- A chain of next hops reaches the owner or gets strictly closer to it. -/
theorem Ordered.chain (hS : Ordered owns S) {d : Addr} {n m : Node}
    (h : Relation.TransGen (Hop owns S d) n m) :
    owns m d ∨ S.peak n d < S.peak m d ∨ (S.peak n d = S.peak m d ∧ S.stamp m d < S.stamp n d) := by
  induction h with
  | single hhop =>
      obtain ⟨a, ha, hm⟩ := hhop
      exact hS.rises _ d a _ ha hm
  | tail _ hhop ih =>
      obtain ⟨a, ha, hm⟩ := hhop
      rcases hS.rises _ d a _ ha hm with hown | hlast
      · exact .inl hown
      · rcases ih with hown | hfirst
        · rw [hS.home _ d hown] at ha
          simp at ha
        · right
          omega

theorem Ordered.acyclic (hS : Ordered owns S) (d : Addr) (n : Node) :
    ¬Relation.TransGen (Hop owns S d) n n := by
  intro h
  rcases hS.chain h with hown | hlt
  · -- the owner has no next hop to leave by
    obtain ⟨m, ⟨a, ha, -⟩, -⟩ := Relation.TransGen.head'_iff.mp h
    rw [hS.home n d hown] at ha
    simp at ha
  · omega

end SequencedRouting
