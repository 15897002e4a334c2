import Mathlib.Data.List.Basic
import Mathlib.Data.List.Count
import Mathlib.Tactic.Common

/-!
# Tables with a fixed number of slots

Some of the slots are in use. A new entry goes into the first slot that is free or, when there
is none, into the one with the oldest entry; entries are taken out where they stand. A search
that counts the slots in use is safe as long as the count it is given is right.
-/

namespace SlotTable

variable {α : Type*} (used : α → Bool) (stamp : α → ℕ)

/-- The first slot that is free, and the slot zero if there is none. -/
def firstFree (l : List α) : ℕ :=
  if l.findIdx (fun e => !used e) < l.length then l.findIdx (fun e => !used e) else 0

/-- The scan for the last slot that is free, from slot `i` on: so far it is `best`. -/
def lastFreeFrom : ℕ → ℕ → List α → ℕ
  | _, best, [] => best
  | i, best, e :: l => lastFreeFrom (i + 1) (if used e then best else i) l

/-- The last slot that is free, and the slot zero if there is none. -/
def lastFree (l : List α) : ℕ :=
  lastFreeFrom used 0 0 l

/-- The scan for the oldest entry, from slot `i` on: so far it is the one in slot `best`. -/
def oldestFrom : ℕ → ℕ → ℕ → List α → ℕ
  | _, best, _, [] => best
  | i, best, t, e :: l =>
      if used e ∧ stamp e < t then oldestFrom (i + 1) i (stamp e) l
      else oldestFrom (i + 1) best t l

def oldest : List α → ℕ
  | [] => 0
  | e :: l => oldestFrom used stamp 1 0 (stamp e) l

/-- The first slot in use that meets `hit`, if there is one. The search goes on until it has come
by `size` slots in use, and would run past the table if there were fewer. -/
def find (hit : α → Bool) (size : ℕ) : ℕ → ℕ → List α → Option (Option ℕ)
  | count, i, l =>
      if count < size then
        match l with
        | [] => none
        | e :: l =>
            if used e then
              if hit e then some (some i) else find hit size (count + 1) (i + 1) l
            else find hit size count (i + 1) l
      else some none

variable {used stamp} {l : List α} {i : ℕ} {e : α}

theorem exists_perm_modify (hi : l[i]? = some e) :
    ∃ rest, l.Perm (e :: rest) ∧ ∀ f, (l.modify i f).Perm (f e :: rest) := by
  induction l generalizing i with
  | nil => simp at hi
  | cons a l ih =>
      cases i with
      | zero =>
          obtain rfl : a = e := by simpa using hi
          exact ⟨l, .refl _, fun f => by simp⟩
      | succ i =>
          rw [List.getElem?_cons_succ] at hi
          obtain ⟨rest, hl, hmod⟩ := ih hi
          refine ⟨a :: rest, (hl.cons a).trans (.swap ..), fun f => ?_⟩
          rw [List.modify_succ_cons]
          exact ((hmod f).cons a).trans (.swap ..)

variable (used) in
/-- The number of slots in use after one slot was written. -/
theorem countP_modify (hi : l[i]? = some e) (f : α → α) :
    (l.modify i f).countP used + (if used e then 1 else 0) =
      l.countP used + if used (f e) then 1 else 0 := by
  obtain ⟨rest, hperm, hmod⟩ := exists_perm_modify hi
  rw [(hmod f).countP_eq, hperm.countP_eq, List.countP_cons, List.countP_cons]
  omega

theorem mem_modify {f : α → α} {x : α} (h : x ∈ l.modify i f) : x ∈ l ∨ ∃ y ∈ l, x = f y := by
  obtain ⟨k, hk⟩ := List.mem_iff_getElem?.mp h
  rw [List.getElem?_modify] at hk
  obtain ⟨y, hy, hx⟩ := Option.map_eq_some_iff.mp hk
  have hmem := List.mem_of_getElem? hy
  split at hx
  · exact .inr ⟨y, hmem, hx.symm⟩
  · exact .inl (hx ▸ hmem)

theorem exists_free (h : l.countP used < l.length) : ∃ e ∈ l, (!used e) = true := by
  by_contra hall
  apply Nat.ne_of_lt h
  rw [List.countP_eq_length]
  intro e he
  by_contra hu
  exact hall ⟨e, he, by simpa using hu⟩

theorem all_used (h : l.length ≤ l.countP used) : ∀ e ∈ l, used e :=
  List.countP_eq_length.mp (Nat.le_antisymm List.countP_le_length h)

/-- A slot is filled: one more is in use unless all were. -/
theorem countP_fill {cap : ℕ} {f : α → α} (hi : l[i]? = some e)
    (he : used e = !decide (l.countP used < cap)) (hf : used (f e) = true) :
    (l.modify i f).countP used =
      if l.countP used < cap then l.countP used + 1 else l.countP used := by
  have hcount := countP_modify used hi f
  rw [he, hf] at hcount
  by_cases hlt : l.countP used < cap
  · simp [hlt] at hcount ⊢
    omega
  · simp [hlt] at hcount ⊢
    omega

variable (used) in
theorem firstFree_spec (h : l.countP used < l.length) :
    ∃ e, l[firstFree used l]? = some e ∧ used e = false := by
  have hlt := List.findIdx_lt_length.mpr (exists_free h)
  refine ⟨l[l.findIdx (fun e => !used e)], ?_, ?_⟩
  · rw [firstFree, if_pos hlt, List.getElem?_eq_getElem hlt]
  · have hp := List.findIdx_getElem (w := hlt)
    simpa using hp

theorem lastFreeFrom_spec {best : ℕ} (pre : List α) (hpre : pre.length = i)
    (h : (∃ e ∈ l, (!used e) = true) ∨ ∃ e, (pre ++ l)[best]? = some e ∧ used e = false) :
    ∃ e, (pre ++ l)[lastFreeFrom used i best l]? = some e ∧ used e = false := by
  induction l generalizing i best pre with
  | nil => exact h.resolve_left (by simp)
  | cons a l ih =>
      have hlen : (pre ++ [a]).length = i + 1 := by rw [List.length_append, hpre]; rfl
      have hassoc : pre ++ a :: l = pre ++ [a] ++ l := by simp
      rw [lastFreeFrom, hassoc]
      apply ih (pre ++ [a]) hlen
      cases ha : used a with
      | false =>
          refine .inr ⟨a, ?_, ha⟩
          rw [← hassoc, if_neg Bool.false_ne_true,
            List.getElem?_append_right (Nat.le_of_eq hpre), hpre, Nat.sub_self]
          rfl
      | true =>
          rcases h with ⟨e, he, hfree⟩ | hbest
          · rcases List.mem_cons.mp he with rfl | he
            · rw [ha] at hfree
              cases hfree
            · exact .inl ⟨e, he, hfree⟩
          · exact .inr (hassoc ▸ hbest)

variable (used) in
theorem lastFree_spec (h : l.countP used < l.length) :
    ∃ e, l[lastFree used l]? = some e ∧ used e = false :=
  lastFreeFrom_spec [] rfl (.inl (exists_free h))

/-- With as many slots in use as are counted, the search finds a slot or comes to its end. -/
theorem find_cases (hit : α → Bool) {size count : ℕ} (i : ℕ)
    (h : count + l.countP used = size) :
    (∃ k e, find used hit size count i l = some (some (i + k)) ∧ l[k]? = some e ∧ used e ∧ hit e) ∨
    find used hit size count i l = some none ∧ ∀ e ∈ l, used e → hit e = false := by
  induction l generalizing count i with
  | nil =>
      have hge : ¬count < size := Nat.not_lt.mpr (Nat.le_of_eq h.symm)
      exact .inr ⟨by rw [find, if_neg hge], by simp⟩
  | cons e l ih =>
      rw [List.countP_cons] at h
      rw [find]
      by_cases hlt : count < size
      · rw [if_pos hlt]
        by_cases hhit : used e ∧ hit e
        · exact .inl ⟨0, e, by simp [hhit], rfl, hhit⟩
        · have hstep : (if used e then
              if hit e then some (some i) else find used hit size (count + 1) (i + 1) l
              else find used hit size count (i + 1) l) =
            find used hit size (count + if used e then 1 else 0) (i + 1) l := by
            by_cases hused : used e
            · rw [if_pos hused, if_neg fun hs => hhit ⟨hused, hs⟩, if_pos hused]
            · rw [if_neg hused, if_neg hused]
              rfl
          rw [hstep]
          have hcount : count + (if used e then 1 else 0) + l.countP used = size := by omega
          rcases ih (i + 1) hcount with ⟨k, e', hfind, hk, hboth⟩ | ⟨hfind, hnone⟩
          · refine .inl ⟨k + 1, e', ?_, hk, hboth⟩
            rw [hfind, Nat.add_assoc, Nat.add_comm 1 k]
          · refine .inr ⟨hfind, ?_⟩
            intro x hx hused
            rcases List.mem_cons.mp hx with rfl | hx
            · exact Bool.eq_false_iff.mpr fun hs => hhit ⟨hused, hs⟩
            · exact hnone x hx hused
      · -- all slots in use have been counted
        have hzero : (e :: l).countP used = 0 := by
          rw [List.countP_cons]
          omega
        refine .inr ⟨if_neg hlt, ?_⟩
        intro x hx hused
        exact absurd hused (List.countP_eq_zero.mp hzero x hx)

theorem oldestFrom_spec {best t : ℕ} (pre : List α) (hpre : pre.length = i)
    (hbest : ∃ e, (pre ++ l)[best]? = some e ∧ stamp e = t)
    (hle : ∀ e ∈ pre, t ≤ stamp e) (hused : ∀ e ∈ l, used e) :
    ∃ e, (pre ++ l)[oldestFrom used stamp i best t l]? = some e ∧
      ∀ e' ∈ pre ++ l, stamp e ≤ stamp e' := by
  induction l generalizing i best t pre with
  | nil =>
      obtain ⟨e, he, rfl⟩ := hbest
      exact ⟨e, he, by simpa using hle⟩
  | cons a l ih =>
      have hlen : (pre ++ [a]).length = i + 1 := by rw [List.length_append, hpre]; rfl
      have hassoc : pre ++ a :: l = pre ++ [a] ++ l := by simp
      have hrest : ∀ e ∈ l, used e := fun e he => hused e (List.mem_cons_of_mem a he)
      rw [oldestFrom]
      split
      · next hlt =>
          rw [hassoc]
          apply ih (pre ++ [a]) hlen _ _ hrest
          · refine ⟨a, ?_, rfl⟩
            rw [← hassoc, List.getElem?_append_right (Nat.le_of_eq hpre), hpre, Nat.sub_self]
            rfl
          · intro e he
            rcases List.mem_append.mp he with he | he
            · exact Nat.le_trans (Nat.le_of_lt hlt.2) (hle e he)
            · exact Nat.le_of_eq (by rw [List.mem_singleton.mp he])
      · next hge =>
          rw [hassoc]
          rw [hassoc] at hbest
          apply ih (pre ++ [a]) hlen hbest _ hrest
          intro e he
          rcases List.mem_append.mp he with he | he
          · exact hle e he
          · rw [List.mem_singleton.mp he]
            exact Nat.not_lt.mp fun hlt => hge ⟨hused a List.mem_cons_self, hlt⟩

variable (used stamp) in
/-- In a full table nothing is older than what is in the slot that is found. -/
theorem oldest_spec (hne : l ≠ []) (hused : ∀ e ∈ l, used e) :
    ∃ e, l[oldest used stamp l]? = some e ∧ ∀ e' ∈ l, stamp e ≤ stamp e' := by
  cases l with
  | nil => exact absurd rfl hne
  | cons a l =>
      exact oldestFrom_spec [a] rfl ⟨a, rfl, rfl⟩ (by simp)
        fun e he => hused e (List.mem_cons_of_mem a he)

/-- The slot that is chosen while there is a free one, or else the oldest. -/
theorem slot_spec {cap free old : ℕ} (hlen : l.length = cap) (hcap : 0 < cap)
    (hfree : l.countP used < l.length → ∃ e, l[free]? = some e ∧ used e = false)
    (hold : l ≠ [] → (∀ e ∈ l, used e) → ∃ e, l[old]? = some e) :
    ∃ e, l[if l.countP used < cap then free else old]? = some e ∧
      used e = !decide (l.countP used < cap) := by
  split
  · next hlt =>
      obtain ⟨e, he, hunused⟩ := hfree (hlen.symm ▸ hlt)
      exact ⟨e, he, by simp [hunused, hlt]⟩
  · next hge =>
      have hall := all_used (hlen.symm ▸ Nat.not_lt.mp hge)
      obtain ⟨e, he⟩ := hold (List.length_pos_iff.mp (hlen.symm ▸ hcap)) hall
      exact ⟨e, he, by simp [hall e (List.mem_of_getElem? he), hge]⟩

end SlotTable
