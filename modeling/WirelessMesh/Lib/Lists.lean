import Mathlib.Data.List.Nodup
import Mathlib.Data.List.Perm.Subperm
import Mathlib.Data.List.Range
import Mathlib.Tactic.Common

/-!
# Lists

Lists that are searched by a test or a key, and results that come out of a step which may fail.
-/

namespace Lists

variable {α β : Type*} {l : List α} {p q : α → Bool} {x : α}

/-! ### Taking out the first that meets a test -/

/-- Without the first element that meets `p`, the others that meet it follow in their order. -/
theorem filter_eq_cons_of_find? (h : l.find? p = some x) :
    l.filter p = x :: (l.eraseP p).filter p := by
  induction l with
  | nil => cases h
  | cons y l ih =>
      by_cases hy : p y
      · rw [List.find?_cons_of_pos hy] at h
        obtain rfl := Option.some.inj h
        rw [List.filter_cons_of_pos hy, List.eraseP_cons_of_pos hy]
      · rw [List.find?_cons_of_neg hy] at h
        rw [List.filter_cons_of_neg hy, List.eraseP_cons_of_neg hy, List.filter_cons_of_neg hy]
        exact ih h

theorem filter_not_eraseP : (l.eraseP p).filter (fun y => !p y) = l.filter fun y => !p y := by
  induction l with
  | nil => rfl
  | cons y l ih =>
      by_cases hy : p y
      · rw [List.eraseP_cons_of_pos hy, List.filter_cons_of_neg (by simp [hy])]
      · rw [List.eraseP_cons_of_neg hy, List.filter_cons_of_pos (by simp [hy]),
          List.filter_cons_of_pos (by simp [hy]), ih]

/-- Two filters of a list agree exactly when their tests agree on its members. -/
theorem filter_eq_filter_iff : l.filter p = l.filter q ↔ ∀ x ∈ l, p x = q x := by
  constructor
  · intro h x hx
    have hmem : x ∈ l.filter p ↔ x ∈ l.filter q := by rw [h]
    rw [Bool.eq_iff_iff]
    simpa only [List.mem_filter, hx, true_and] using hmem
  · exact List.filter_congr

/-! ### Keys -/

section Keys

variable {key : α → β}

theorem nodup_map_concat (h : (l.map key).Nodup) (hx : ∀ y ∈ l, key y ≠ key x) :
    ((l ++ [x]).map key).Nodup := by
  rw [List.map_append, List.map_singleton, ← List.concat_eq_append, List.nodup_concat]
  refine ⟨?_, h⟩
  rw [List.mem_map]
  exact fun ⟨y, hy, heq⟩ => hx y hy heq

theorem find?_key [DecidableEq β] (h : (l.map key).Nodup) (hx : x ∈ l) :
    l.find? (fun y => key y = key x) = some x := by
  cases hfind : l.find? fun y => key y = key x with
  | none =>
      have hnot := List.find?_eq_none.mp hfind x hx
      simp at hnot
  | some y =>
      have hkey : key y = key x := by simpa using List.find?_some hfind
      rw [List.inj_on_of_nodup_map h (List.mem_of_find?_eq_some hfind) hx hkey]

end Keys

/-- As many different numbers as there are below a bound are all of these. -/
theorem mem_of_nodup_below {l : List ℕ} {k : ℕ} (h : l.Nodup) (hbelow : ∀ x ∈ l, x < l.length)
    (hk : k < l.length) : k ∈ l := by
  have hsubset : l ⊆ List.range l.length := fun x hx => List.mem_range.mpr (hbelow x hx)
  have hperm : l.Perm (List.range l.length) :=
    (List.subperm_of_subset h hsubset).perm_of_length_le (by simp)
  exact hperm.mem_iff.mpr (List.mem_range.mpr hk)

/-! ### Parts of a list -/

theorem forall_mem_snoc {P : α → Prop} (hl : ∀ y ∈ l, P y) (hx : P x) : ∀ y ∈ l ++ [x], P y :=
  List.forall_mem_append.mpr ⟨hl, List.forall_mem_singleton.mpr hx⟩

theorem headD_append_replicate (l : List α) (k : ℕ) (a : α) :
    (l ++ List.replicate k a).headD a = l.headD a := by
  cases l with
  | nil => cases k <;> rfl
  | cons x l => rfl

theorem map_range_getElem? (l : List α) (f : α → β) :
    (List.range l.length).map (fun i => l[i]?.map f) = l.map fun a => some (f a) := by
  apply List.ext_getElem?
  intro i
  by_cases hi : i < l.length <;> simp [hi]

theorem length_flatten_of_forall {l : List (List α)} {k : ℕ} (h : ∀ x ∈ l, x.length = k) :
    l.flatten.length = l.length * k := by
  induction l with
  | nil => simp
  | cons x l ih =>
      rw [List.flatten_cons, List.length_append, h x List.mem_cons_self,
        ih fun y hy => h y (List.mem_cons_of_mem _ hy), List.length_cons, Nat.succ_mul,
        Nat.add_comm]

end Lists

namespace Fallible

variable {ε α β : Type*} {x : Except ε α} {b : β}

theorem exists_of_map_eq_ok {f : α → β} (h : x.map f = .ok b) : ∃ a, x = .ok a ∧ f a = b := by
  cases x with
  | error e => cases h
  | ok a => exact ⟨a, rfl, Except.ok.inj h⟩

theorem exists_of_bind_eq_ok {f : α → Except ε β} (h : x.bind f = .ok b) :
    ∃ a, x = .ok a ∧ f a = .ok b := by
  cases x with
  | error e => cases h
  | ok a => exact ⟨a, rfl, h⟩

end Fallible
