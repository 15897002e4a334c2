import Mathlib.Data.Multiset.Filter
import Mathlib.Tactic.Common

/-!
# A cache whose entries age

The cache holds stamped values, at most `cap` of them. A value that is known gets a new stamp;
one that is not is added, and when the cache is full it takes the place of an entry no other
is older than. What is looked for and what is then added need not be the same value.
-/

namespace AgingCache

variable {β : Type*}

def Touch (now : ℕ) (v : β) (s s' : Multiset (ℕ × β)) : Prop :=
  ∃ t rest, s = (t, v) ::ₘ rest ∧ s' = (now, v) ::ₘ rest

inductive Put (cap now : ℕ) (v : β) : Multiset (ℕ × β) → Multiset (ℕ × β) → Prop
  | fill {s : Multiset (ℕ × β)} (h : s.card < cap) : Put cap now v s ((now, v) ::ₘ s)
  | evict {s : Multiset (ℕ × β)} {t : ℕ} {o : β} (hfull : s.card + 1 = cap)
      (hold : ∀ e ∈ s, t ≤ e.1) : Put cap now v ((t, o) ::ₘ s) ((now, v) ::ₘ s)

/-- The value `key` gets a new stamp if it is there, and otherwise `v` is added. -/
def Learn (cap now : ℕ) (key v : β) (s s' : Multiset (ℕ × β)) : Prop :=
  Touch now key s s' ∨ (∀ t, (t, key) ∉ s) ∧ Put cap now v s s'

def LearnAll (cap now : ℕ) : List (β × β) → Multiset (ℕ × β) → Multiset (ℕ × β) → Prop
  | [], s, s' => s' = s
  | kv :: kvs, s, s' => ∃ s₁, Learn cap now kv.1 kv.2 s s₁ ∧ LearnAll cap now kvs s₁ s'

def young (t₀ : ℕ) (s : Multiset (ℕ × β)) : ℕ :=
  s.countP fun e => t₀ < e.1

variable {cap now t₀ : ℕ} {key v : β} {s s' : Multiset (ℕ × β)}

theorem young_cons (e : ℕ × β) :
    young t₀ (e ::ₘ s) = young t₀ s + if t₀ < e.1 then 1 else 0 :=
  Multiset.countP_cons ..

theorem Learn.card_le (h : Learn cap now key v s s') (hs : s.card ≤ cap) : s'.card ≤ cap := by
  rcases h with ⟨t, rest, rfl, rfl⟩ | ⟨-, ⟨hlt⟩ | ⟨hfull⟩⟩
  · simpa using hs
  · rw [Multiset.card_cons]
    exact hlt
  · rw [Multiset.card_cons, hfull]

theorem LearnAll.card_le {kvs : List (β × β)} (h : LearnAll cap now kvs s s')
    (hs : s.card ≤ cap) : s'.card ≤ cap := by
  induction kvs generalizing s with
  | nil => rwa [show s' = s from h]
  | cons kv kvs ih =>
      obtain ⟨s₁, h₁, h⟩ := h
      exact ih h (h₁.card_le hs)

theorem Put.le_young (h : Put cap now v s s') (ht : t₀ < now) :
    min cap (young t₀ s + 1) ≤ young t₀ s' := by
  rcases h with ⟨hlt⟩ | ⟨hfull, hold⟩
  · rw [young_cons, if_pos ht]
    exact Nat.min_le_right ..
  · next s t o =>
      rw [young_cons, young_cons, if_pos ht]
      by_cases hto : t₀ < t
      · -- the oldest entry is young, so all of them are
        have hall : ∀ e ∈ s, t₀ < e.1 := fun e he => Nat.lt_of_lt_of_le hto (hold e he)
        rw [young, Multiset.countP_eq_card.mpr hall, hfull]
        exact Nat.min_le_left ..
      · rw [if_neg hto]
        exact Nat.min_le_right ..

theorem Touch.le_young (h : Touch now v s s') (ht : t₀ < now) : young t₀ s ≤ young t₀ s' := by
  obtain ⟨t, rest, rfl, rfl⟩ := h
  rw [young_cons, young_cons, if_pos ht]
  split <;> omega

theorem Learn.le_young (h : Learn cap now key v s s') (ht : t₀ < now) (hs : s.card ≤ cap) :
    young t₀ s ≤ young t₀ s' := by
  rcases h with htouch | ⟨-, hput⟩
  · exact htouch.le_young ht
  · have hle := hput.le_young ht
    have hcard : young t₀ s ≤ s.card := Multiset.countP_le_card ..
    omega

theorem LearnAll.le_young {kvs : List (β × β)} (h : LearnAll cap now kvs s s') (ht : t₀ < now)
    (hs : s.card ≤ cap) : young t₀ s ≤ young t₀ s' := by
  induction kvs generalizing s with
  | nil => rw [show s' = s from h]
  | cons kv kvs ih =>
      obtain ⟨s₁, h₁, h⟩ := h
      exact (h₁.le_young ht hs).trans (ih h (h₁.card_le hs))

theorem Learn.young_le (h : Learn cap now key v s s') : young t₀ s' ≤ young t₀ s + 1 := by
  rcases h with ⟨t, rest, rfl, rfl⟩ | ⟨-, ⟨hlt⟩ | ⟨hfull, hold⟩⟩ <;> simp only [young_cons] <;>
    split <;> omega

/-- While not all entries are young, a young one is not pushed out. -/
theorem Learn.young_kept (h : Learn cap now key v s s') (ht : t₀ < now) (hroom : young t₀ s < cap)
    {w : β} (hw : ∃ t, t₀ < t ∧ (t, w) ∈ s) : ∃ t, t₀ < t ∧ (t, w) ∈ s' := by
  obtain ⟨tw, htw, hw⟩ := hw
  rcases h with ⟨t, rest, rfl, rfl⟩ | ⟨-, ⟨-⟩ | ⟨hfull, hold⟩⟩
  · rcases Multiset.mem_cons.mp hw with heq | hw
    · cases heq
      exact ⟨now, ht, Multiset.mem_cons_self ..⟩
    · exact ⟨tw, htw, Multiset.mem_cons_of_mem hw⟩
  · exact ⟨tw, htw, Multiset.mem_cons_of_mem hw⟩
  · next s t o =>
      rcases Multiset.mem_cons.mp hw with heq | hw
      · cases heq
        have hall : ∀ e ∈ (tw, w) ::ₘ s, t₀ < e.1 := by
          intro e he
          rcases Multiset.mem_cons.mp he with rfl | he
          · exact htw
          · exact Nat.lt_of_lt_of_le htw (hold e he)
        rw [young, Multiset.countP_eq_card.mpr hall, Multiset.card_cons] at hroom
        omega
      · exact ⟨tw, htw, Multiset.mem_cons_of_mem hw⟩

theorem LearnAll.young_kept {kvs : List (β × β)} (h : LearnAll cap now kvs s s') (ht : t₀ < now)
    (hroom : young t₀ s + kvs.length ≤ cap) {w : β} (hw : ∃ t, t₀ < t ∧ (t, w) ∈ s) :
    ∃ t, t₀ < t ∧ (t, w) ∈ s' := by
  induction kvs generalizing s with
  | nil => rwa [show s' = s from h]
  | cons kv kvs ih =>
      obtain ⟨s₁, h₁, h⟩ := h
      rw [List.length_cons] at hroom
      have hle : young t₀ s₁ ≤ young t₀ s + 1 := h₁.young_le
      exact ih h (by omega) (h₁.young_kept ht (by omega) hw)

/-- A value that is learned is there, if it is the one looked for. -/
theorem Learn.mem (h : Learn cap now v v s s') : (now, v) ∈ s' := by
  rcases h with ⟨t, rest, rfl, rfl⟩ | ⟨-, ⟨-⟩ | ⟨-, -⟩⟩ <;> exact Multiset.mem_cons_self ..

theorem learnAll_append {kvs kvs' : List (β × β)} :
    LearnAll cap now (kvs ++ kvs') s s' ↔
      ∃ s₁, LearnAll cap now kvs s s₁ ∧ LearnAll cap now kvs' s₁ s' := by
  induction kvs generalizing s with
  | nil => exact ⟨fun h => ⟨s, rfl, h⟩, fun ⟨_, hs, h⟩ => hs ▸ h⟩
  | cons kv kvs ih =>
      constructor
      · rintro ⟨s₁, h₁, h⟩
        obtain ⟨s₂, h₂, h⟩ := ih.mp h
        exact ⟨s₂, ⟨s₁, h₁, h₂⟩, h⟩
      · rintro ⟨s₂, ⟨s₁, h₁, h₂⟩, h⟩
        exact ⟨s₁, h₁, ih.mpr ⟨s₂, h₂, h⟩⟩

/-- An entry is an old one, or its value has just been added or looked for and found. -/
theorem Learn.mem_cases (h : Learn cap now key v s s') {e : ℕ × β} (he : e ∈ s') :
    e ∈ s ∨ e = (now, v) ∨ e = (now, key) ∧ ∃ t, (t, key) ∈ s := by
  rcases h with ⟨t, rest, rfl, rfl⟩ | ⟨-, ⟨-⟩ | ⟨-, -⟩⟩
  · rcases Multiset.mem_cons.mp he with rfl | he
    · exact .inr (.inr ⟨rfl, t, Multiset.mem_cons_self ..⟩)
    · exact .inl (Multiset.mem_cons_of_mem he)
  · rcases Multiset.mem_cons.mp he with rfl | he
    · exact .inr (.inl rfl)
    · exact .inl he
  · rcases Multiset.mem_cons.mp he with rfl | he
    · exact .inr (.inl rfl)
    · exact .inl (Multiset.mem_cons_of_mem he)

/-- After learning, an entry is an old one or has the new stamp. Its value is among those that
were looked for or added, and among those that were added or there before. -/
theorem LearnAll.mem_cases {kvs : List (β × β)} (h : LearnAll cap now kvs s s') {e : ℕ × β}
    (he : e ∈ s') :
    e ∈ s ∨ e.1 = now ∧ (∃ kv ∈ kvs, e.2 = kv.1 ∨ e.2 = kv.2) ∧
      ((∃ kv ∈ kvs, e.2 = kv.2) ∨ ∃ t, (t, e.2) ∈ s) := by
  induction kvs generalizing s with
  | nil => exact .inl ((show s' = s from h) ▸ he)
  | cons kv kvs ih =>
      obtain ⟨s₁, h₁, h⟩ := h
      have hself : kv ∈ kv :: kvs := List.mem_cons_self
      rcases ih h with he | ⟨hnow, ⟨kv', hkv', hval⟩, hadd⟩
      · rcases h₁.mem_cases he with he | rfl | ⟨rfl, t, ht⟩
        · exact .inl he
        · exact .inr ⟨rfl, ⟨kv, hself, .inr rfl⟩, .inl ⟨kv, hself, rfl⟩⟩
        · exact .inr ⟨rfl, ⟨kv, hself, .inl rfl⟩, .inr ⟨t, ht⟩⟩
      · refine .inr ⟨hnow, ⟨kv', List.mem_cons_of_mem kv hkv', hval⟩, ?_⟩
        rcases hadd with ⟨kv', hkv', hval⟩ | ⟨t, ht⟩
        · exact .inl ⟨kv', List.mem_cons_of_mem kv hkv', hval⟩
        · rcases h₁.mem_cases ht with ht | heq | ⟨heq, t', ht'⟩
          · exact .inr ⟨t, ht⟩
          · exact .inl ⟨kv, hself, (Prod.ext_iff.mp heq).2⟩
          · have hval : e.2 = kv.1 := (Prod.ext_iff.mp heq).2
            exact .inr ⟨t', hval ▸ ht'⟩

end AgingCache
