import WirelessMesh.Lib.HeapList
import Mathlib.Data.List.FinRange
import Mathlib.Logic.Function.Basic

/-!
# Chained hash tables of counted cells

A table has `n` chains of pointers into a heap. A linked cell holds one reference
to itself, a reader that was handed a pointer holds another; the cell is freed
when the last one is dropped. Pointers on a chain are never dangling, a cell is on
one chain at most, and a cell in memory has a positive count: all three are
fields.

What is linked is read through `At t i p a`: chain `i` holds the pointer `p`, at
which `a` is stored. Each operation has one lemma that says what is linked
afterwards.
-/

structure Counted (α : Type*) where
  useCount : ℕ
  val : α

structure ChainTable (n : ℕ) (α : Type*) where
  mem : HeapList (Counted α)
  chain : Fin n → List ℕ
  alive : ∀ i, ∀ p ∈ chain i, ∃ c, (p, c) ∈ mem.cells
  once : ∀ i, (chain i).Nodup
  apart : ∀ {i j p}, p ∈ chain i → p ∈ chain j → i = j
  counted : ∀ {p c}, (p, c) ∈ mem.cells → 0 < c.useCount

namespace ChainTable

variable {n : ℕ} {α : Type*}

def empty : ChainTable n α where
  mem := HeapList.empty
  chain := fun _ => []
  alive := by simp
  once := by simp
  apart := by simp
  counted := by simp

/-- The contents behind a pointer, `none` when the cell has been freed. -/
def read (t : ChainTable n α) (p : ℕ) : Option α := (t.mem.get? p).map Counted.val

def useCount (t : ChainTable n α) (p : ℕ) : Option ℕ := (t.mem.get? p).map Counted.useCount

def At (t : ChainTable n α) (i : Fin n) (p : ℕ) (a : α) : Prop :=
  p ∈ t.chain i ∧ t.read p = some a

def Linked (t : ChainTable n α) (p : ℕ) : Prop := ∃ i, p ∈ t.chain i

instance (t : ChainTable n α) (p : ℕ) : Decidable (t.Linked p) :=
  inferInstanceAs (Decidable (∃ i, p ∈ t.chain i))

theorem read_eq_some {t : ChainTable n α} {p : ℕ} {a : α} :
    t.read p = some a ↔ ∃ k, (p, ⟨k, a⟩) ∈ t.mem.cells := by
  simp only [read, Option.map_eq_some_iff, HeapList.get?_eq_some]
  constructor
  · rintro ⟨⟨k, b⟩, hc, rfl⟩
    exact ⟨k, hc⟩
  · rintro ⟨k, hc⟩
    exact ⟨_, hc, rfl⟩

theorem useCount_eq_some {t : ChainTable n α} {p k : ℕ} :
    t.useCount p = some k ↔ ∃ a, (p, ⟨k, a⟩) ∈ t.mem.cells := by
  simp only [useCount, Option.map_eq_some_iff, HeapList.get?_eq_some]
  constructor
  · rintro ⟨⟨k, b⟩, hc, rfl⟩
    exact ⟨b, hc⟩
  · rintro ⟨a, hc⟩
    exact ⟨_, hc, rfl⟩

theorem Linked.at {t : ChainTable n α} {i : Fin n} {p : ℕ} (h : p ∈ t.chain i) :
    ∃ a, t.At i p a := by
  obtain ⟨c, hc⟩ := t.alive i p h
  exact ⟨c.val, h, read_eq_some.mpr ⟨c.useCount, hc⟩⟩

theorem At.eq {t : ChainTable n α} {i j : Fin n} {p : ℕ} {a b : α} (h : t.At i p a)
    (h' : t.At j p b) : i = j ∧ a = b :=
  ⟨t.apart h.1 h'.1, Option.some.inj (h.2.symm.trans h'.2)⟩

theorem At.linked {t : ChainTable n α} {i : Fin n} {p : ℕ} {a : α} (h : t.At i p a) :
    t.Linked p := ⟨i, h.1⟩

/-! ## Searching -/

def find (t : ChainTable n α) (i : Fin n) (q : α → Bool) : Option ℕ :=
  (t.chain i).find? fun p => (t.read p).any q

theorem at_of_find {t : ChainTable n α} {i : Fin n} {q : α → Bool} {p : ℕ}
    (h : t.find i q = some p) : ∃ a, t.At i p a ∧ q a = true := by
  have hp := List.mem_of_find?_eq_some h
  have hq := List.find?_some h
  obtain ⟨a, ha⟩ := Linked.at hp
  exact ⟨a, ha, by simpa [ha.2] using hq⟩

theorem not_of_find_none {t : ChainTable n α} {i : Fin n} {q : α → Bool} {p : ℕ} {a : α}
    (h : t.find i q = none) (ha : t.At i p a) : q a = false := by
  have hp := List.find?_eq_none.mp h p ha.1
  simpa [ha.2] using hp

/-- The first cell of all chains, in order, whose contents satisfy `q`. -/
def search (t : ChainTable n α) (q : α → Bool) : Option ℕ :=
  (List.finRange n).findSome? fun i => t.find i q

theorem at_of_search {t : ChainTable n α} {q : α → Bool} {p : ℕ} (h : t.search q = some p) :
    ∃ i a, t.At i p a ∧ q a = true := by
  obtain ⟨i, _, hi⟩ := List.exists_of_findSome?_eq_some h
  obtain ⟨a, ha⟩ := at_of_find hi
  exact ⟨i, a, ha⟩

theorem linked_of_search {t : ChainTable n α} {q : α → Bool} {p : ℕ} (h : t.search q = some p) :
    t.Linked p := by
  obtain ⟨i, a, ha, _⟩ := at_of_search h
  exact ha.linked

theorem not_of_search_none {t : ChainTable n α} {q : α → Bool} {i : Fin n} {p : ℕ} {a : α}
    (h : t.search q = none) (ha : t.At i p a) : q a = false := by
  have hi := List.findSome?_eq_none_iff.mp h i (List.mem_finRange i)
  exact not_of_find_none hi ha

/-! ## Operations -/

/-- Allocate a cell with one reference and link it at the head of chain `i`. -/
def insert (t : ChainTable n α) (i : Fin n) (a : α) : ChainTable n α where
  mem := t.mem.push ⟨1, a⟩
  chain := Function.update t.chain i (t.mem.next :: t.chain i)
  alive := by
    intro j p hp
    by_cases hj : j = i
    · subst hj
      rw [Function.update_self, List.mem_cons] at hp
      rcases hp with rfl | hp
      · exact ⟨_, List.mem_cons_self⟩
      · obtain ⟨c, hc⟩ := t.alive _ _ hp
        exact ⟨c, List.mem_cons_of_mem _ hc⟩
    · rw [Function.update_of_ne hj] at hp
      obtain ⟨c, hc⟩ := t.alive _ _ hp
      exact ⟨c, List.mem_cons_of_mem _ hc⟩
  once := by
    intro j
    by_cases hj : j = i
    · subst hj
      rw [Function.update_self, List.nodup_cons]
      refine ⟨fun h => ?_, t.once j⟩
      obtain ⟨c, hc⟩ := t.alive _ _ h
      exact t.mem.next_notMem c hc
    · rw [Function.update_of_ne hj]
      exact t.once j
  apart := by
    have hnew : ∀ j, t.mem.next ∉ t.chain j := fun j h =>
      (t.alive _ _ h).elim fun c hc => t.mem.next_notMem c hc
    intro j k p hj hk
    rw [Function.update_apply] at hj hk
    split_ifs at hj hk with hji hki hki
    · rw [hji, hki]
    · rcases List.mem_cons.mp hj with rfl | hj
      · exact absurd hk (hnew k)
      · rw [hji, t.apart hj hk]
    · rcases List.mem_cons.mp hk with rfl | hk
      · exact absurd hj (hnew j)
      · rw [hki, t.apart hj hk]
    · exact t.apart hj hk
  counted := by
    intro p c hc
    rcases List.mem_cons.mp hc with h | h
    · rw [(Prod.mk.inj h).2]
      exact Nat.one_pos
    · exact t.counted h

def modify (t : ChainTable n α) (p : ℕ) (f : Counted α → Counted α)
    (hf : ∀ c, 0 < c.useCount → 0 < (f c).useCount) : ChainTable n α where
  mem := t.mem.modify p f
  chain := t.chain
  alive := by
    intro i q hq
    obtain ⟨c, hc⟩ := t.alive i q hq
    exact ⟨_, HeapList.mem_modify.mpr ⟨c, hc, rfl⟩⟩
  once := t.once
  apart := t.apart
  counted := by
    intro q c hc
    obtain ⟨d, hd, rfl⟩ := HeapList.mem_modify.mp hc
    split_ifs
    · exact hf d (t.counted hd)
    · exact t.counted hd

def edit (t : ChainTable n α) (p : ℕ) (f : α → α) : ChainTable n α :=
  t.modify p (fun c => { c with val := f c.val }) fun _ h => h

def hold (t : ChainTable n α) (p : ℕ) : ChainTable n α :=
  t.modify p (fun c => { c with useCount := c.useCount + 1 }) fun _ _ => Nat.succ_pos _

def lower (mem : HeapList (Counted α)) (p : ℕ) : HeapList (Counted α) :=
  (mem.modify p fun c => { c with useCount := c.useCount - 1 }).filter fun q c =>
    q != p || decide (0 < c.useCount)

theorem mem_lower {mem : HeapList (Counted α)} {p q : ℕ} {c : Counted α} :
    (q, c) ∈ (lower mem p).cells ↔
      (q ≠ p ∧ (q, c) ∈ mem.cells) ∨
        (q = p ∧ 0 < c.useCount ∧ (q, ⟨c.useCount + 1, c.val⟩) ∈ mem.cells) := by
  simp only [lower, HeapList.mem_filter, HeapList.mem_modify, Bool.or_eq_true, bne_iff_ne,
    decide_eq_true_eq]
  constructor
  · rintro ⟨⟨d, hd, rfl⟩, hq⟩
    by_cases hqp : q = p
    · simp only [hqp, if_true, ne_eq, not_true_eq_false, false_or] at hq
      have hk : d.useCount - 1 + 1 = d.useCount := by omega
      refine .inr ⟨hqp, ?_⟩
      simp only [hqp, if_true, hk]
      exact ⟨hq, hqp ▸ hd⟩
    · simp only [hqp, if_false]
      exact .inl ⟨hqp, hd⟩
  · rintro (⟨hqp, hc⟩ | ⟨rfl, hpos, hc⟩)
    · exact ⟨⟨c, hc, by simp [hqp]⟩, .inl hqp⟩
    · exact ⟨⟨_, hc, by simp⟩, .inr hpos⟩

/-- Drop a reference. A pointer to freed memory has none to drop, and the last
reference of a linked cell is its chain's. -/
def put (t : ChainTable n α) (p : ℕ) : Option (ChainTable n α) :=
  if h : (t.mem.get? p).any (fun c => decide (t.Linked p → 1 < c.useCount)) = true then
    some
      { mem := lower t.mem p
        chain := t.chain
        alive := by
          intro i q hq
          obtain ⟨c, hc⟩ := t.alive i q hq
          by_cases hqp : q = p
          · subst hqp
            obtain ⟨d, hd, hlink⟩ := (Option.any_eq_true _ _).mp h
            have hd' := HeapList.get?_eq_some.mp hd
            have hone : 1 < d.useCount := of_decide_eq_true hlink ⟨i, hq⟩
            refine ⟨⟨d.useCount - 1, d.val⟩, mem_lower.mpr (.inr ⟨rfl, ?_, ?_⟩)⟩
            · exact Nat.sub_pos_of_lt hone
            · have hk : d.useCount - 1 + 1 = d.useCount := by omega
              simpa only [hk] using hd'
          · exact ⟨c, mem_lower.mpr (.inl ⟨hqp, hc⟩)⟩
        once := t.once
        apart := t.apart
        counted := by
          intro q c hc
          rcases mem_lower.mp hc with ⟨_, hc⟩ | ⟨_, hpos, _⟩
          · exact t.counted hc
          · exact hpos }
  else none

def drop (t : ChainTable n α) (p : ℕ) : ChainTable n α where
  mem := lower t.mem p
  chain := fun i => (t.chain i).filter (· != p)
  alive := by
    intro i q hq
    obtain ⟨hq, hqp⟩ := List.mem_filter.mp hq
    obtain ⟨c, hc⟩ := t.alive i q hq
    exact ⟨c, mem_lower.mpr (.inl ⟨by simpa using hqp, hc⟩)⟩
  once := fun i => (t.once i).filter _
  apart := fun hi hj => t.apart (List.mem_of_mem_filter hi) (List.mem_of_mem_filter hj)
  counted := by
    intro q c hc
    rcases mem_lower.mp hc with ⟨_, hc⟩ | ⟨_, hpos, _⟩
    · exact t.counted hc
    · exact hpos

/-- Unlink the cell at `p`, rewrite it and link it at the head of chain `j`. -/
def relink (t : ChainTable n α) (p : ℕ) (j : Fin n) (f : α → α) (h : t.Linked p) :
    ChainTable n α where
  mem := (t.edit p f).mem
  chain := Function.update (fun i => (t.chain i).filter (· != p)) j
    (p :: (t.chain j).filter (· != p))
  alive := by
    intro i q hq
    have hlinked : t.Linked q := by
      rw [Function.update_apply] at hq
      split_ifs at hq
      · rcases List.mem_cons.mp hq with rfl | hq
        · exact h
        · exact ⟨j, List.mem_of_mem_filter hq⟩
      · exact ⟨i, List.mem_of_mem_filter hq⟩
    obtain ⟨k, hk⟩ := hlinked
    exact (t.edit p f).alive k q hk
  once := by
    intro i
    rw [Function.update_apply]
    split_ifs
    · exact List.nodup_cons.mpr ⟨by simp, (t.once j).filter _⟩
    · exact (t.once i).filter _
  apart := by
    intro i k q hi hk
    rw [Function.update_apply] at hi hk
    split_ifs at hi hk with hij hkj hkj
    · rw [hij, hkj]
    · obtain ⟨hk, hqp⟩ := List.mem_filter.mp hk
      rcases List.mem_cons.mp hi with rfl | hi
      · simp at hqp
      · rw [hij, t.apart (List.mem_of_mem_filter hi) hk]
    · obtain ⟨hi, hqp⟩ := List.mem_filter.mp hi
      rcases List.mem_cons.mp hk with rfl | hk
      · simp at hqp
      · rw [hkj, t.apart hi (List.mem_of_mem_filter hk)]
    · exact t.apart (List.mem_of_mem_filter hi) (List.mem_of_mem_filter hk)
  counted := (t.edit p f).counted

/-- Walk all chains and drop each cell whose contents satisfy `q`. The walk reads
the next pointer before it drops a cell, so it sees the chains as they were. -/
def sweep (t : ChainTable n α) (q : α → Bool) : ChainTable n α :=
  ((List.finRange n).flatMap t.chain).foldl
    (fun t p => if (t.read p).any q then t.drop p else t) t

/-! ## Memory after an operation -/

theorem get?_lower (mem : HeapList (Counted α)) (p q : ℕ) :
    (lower mem p).get? q = if q = p then (mem.get? q).bind fun c =>
      if 1 < c.useCount then some ⟨c.useCount - 1, c.val⟩ else none else mem.get? q := by
  ext d
  rw [HeapList.get?_eq_some, mem_lower]
  split_ifs with hqp
  · subst hqp
    rw [Option.bind_eq_some_iff]
    simp only [HeapList.get?_eq_some]
    constructor
    · rintro (⟨hne, _⟩ | ⟨_, hpos, hd⟩)
      · exact absurd rfl hne
      · exact ⟨_, hd, by simp [hpos]⟩
    · rintro ⟨c, hc, hd⟩
      split_ifs at hd with hone
      · obtain rfl := Option.some.inj hd
        refine .inr ⟨trivial, Nat.sub_pos_of_lt hone, ?_⟩
        have hk : c.useCount - 1 + 1 = c.useCount := by omega
        simpa only [hk] using hc
  · rw [HeapList.get?_eq_some]
    simp [hqp]

@[simp] theorem read_insert (t : ChainTable n α) (i : Fin n) (a : α) (p : ℕ) :
    (t.insert i a).read p = if p = t.mem.next then some a else t.read p := by
  simp only [read, insert, HeapList.get?_push]
  split_ifs <;> rfl

@[simp] theorem read_edit (t : ChainTable n α) (p q : ℕ) (f : α → α) :
    (t.edit p f).read q = (t.read q).map fun a => if q = p then f a else a := by
  simp only [read, edit, modify, HeapList.get?_modify, Option.map_map]
  congr 1
  funext c
  simp only [Function.comp_apply]
  split_ifs <;> rfl

@[simp] theorem read_hold (t : ChainTable n α) (p q : ℕ) : (t.hold p).read q = t.read q := by
  simp only [read, hold, modify, HeapList.get?_modify, Option.map_map]
  congr 1
  funext c
  simp only [Function.comp_apply]
  split_ifs <;> rfl

@[simp] theorem useCount_insert (t : ChainTable n α) (i : Fin n) (a : α) (p : ℕ) :
    (t.insert i a).useCount p = if p = t.mem.next then some 1 else t.useCount p := by
  simp only [useCount, insert, HeapList.get?_push]
  split_ifs <;> rfl

@[simp] theorem useCount_edit (t : ChainTable n α) (p q : ℕ) (f : α → α) :
    (t.edit p f).useCount q = t.useCount q := by
  simp only [useCount, edit, modify, HeapList.get?_modify, Option.map_map]
  congr 1
  funext c
  simp only [Function.comp_apply]
  split_ifs <;> rfl

@[simp] theorem useCount_hold (t : ChainTable n α) (p q : ℕ) :
    (t.hold p).useCount q = (t.useCount q).map fun k => if q = p then k + 1 else k := by
  simp only [useCount, hold, modify, HeapList.get?_modify, Option.map_map]
  congr 1
  funext c
  simp only [Function.comp_apply]
  split_ifs <;> rfl

/-- A reference can be dropped when the cell is in memory and, if linked, keeps the
chain's reference. -/
theorem put_eq_some {t t' : ChainTable n α} {p : ℕ} (h : t.put p = some t') :
    t'.mem = lower t.mem p ∧ t'.chain = t.chain ∧
      ∃ k, t.useCount p = some k ∧ (t.Linked p → 1 < k) := by
  unfold put at h
  split_ifs at h with hput
  obtain ⟨c, hc, hlink⟩ := (Option.any_eq_true _ _).mp hput
  obtain rfl := Option.some.inj h
  exact ⟨rfl, rfl, c.useCount, by simp [useCount, hc], of_decide_eq_true hlink⟩

theorem put_isSome {t : ChainTable n α} {p k : ℕ} (hk : t.useCount p = some k)
    (hlink : t.Linked p → 1 < k) : ∃ t', t.put p = some t' := by
  obtain ⟨c, hc, rfl⟩ := Option.map_eq_some_iff.mp hk
  have h : (t.mem.get? p).any (fun c => decide (t.Linked p → 1 < c.useCount)) = true := by
    rw [hc, Option.any_some]
    exact decide_eq_true hlink
  exact ⟨_, dif_pos h⟩

/-- A reference taken and given back leaves everything as it was. -/
theorem put_hold {t : ChainTable n α} {p : ℕ} (hp : t.Linked p) : (t.hold p).put p = some t := by
  obtain ⟨i, hi⟩ := id hp
  obtain ⟨c, hc⟩ := t.alive i p hi
  have hk : t.useCount p = some c.useCount := useCount_eq_some.mpr ⟨c.val, hc⟩
  have hcount : (t.hold p).useCount p = some (c.useCount + 1) := by simp [hk]
  obtain ⟨t', ht'⟩ := put_isSome hcount fun _ => Nat.succ_lt_succ (t.counted hc)
  obtain ⟨hmem, hchain, _⟩ := put_eq_some ht'
  have hback : lower (t.hold p).mem p = t.mem := by
    refine HeapList.ext ?_ rfl
    simp only [lower, hold, modify, HeapList.filter, HeapList.modify, HeapList.cells_map,
      List.map_map]
    rw [List.map_congr_left (g := id), List.map_id, List.filter_eq_self]
    · rintro ⟨q, d⟩ hd
      simp [t.counted hd]
    · rintro ⟨q, d⟩ hd
      by_cases hq : q = p <;> simp [hq]
  have heq : t' = t := by
    obtain ⟨_, _⟩ := t'
    obtain ⟨_, _⟩ := t
    simp only at hmem hchain hback
    simp only [ChainTable.mk.injEq]
    exact ⟨hmem.trans hback, hchain⟩
  rw [ht', heq]

/-! ## What is linked after an operation -/

section At

variable {t t' : ChainTable n α} {i j : Fin n} {p q : ℕ} {a b : α} {f : α → α}

theorem not_at_next : ¬t.At j t.mem.next b := by
  rintro ⟨hp, _⟩
  obtain ⟨c, hc⟩ := t.alive _ _ hp
  exact t.mem.next_notMem c hc

theorem mem_chain_insert :
    q ∈ (t.insert i a).chain j ↔ (j = i ∧ q = t.mem.next) ∨ q ∈ t.chain j := by
  simp only [insert, Function.update_apply]
  by_cases hj : j = i
  · simp [hj]
  · simp [hj]

theorem at_insert : (t.insert i a).At j q b ↔
    (j = i ∧ q = t.mem.next ∧ b = a) ∨ t.At j q b := by
  simp only [At, mem_chain_insert, read_insert]
  by_cases hq : q = t.mem.next
  · have hnew : q ∉ t.chain j := fun h => (Linked.at h).elim fun _ ha => not_at_next (hq ▸ ha)
    simp [hq ▸ hnew, hq, eq_comm]
  · simp [hq]

theorem at_edit : (t.edit p f).At j q b ↔ ∃ a, t.At j q a ∧ b = if q = p then f a else a := by
  simp only [At, read_edit, Option.map_eq_some_iff]
  constructor
  · rintro ⟨hq, a, ha, rfl⟩
    exact ⟨a, ⟨hq, ha⟩, rfl⟩
  · rintro ⟨a, ⟨hq, ha⟩, rfl⟩
    exact ⟨hq, a, ha, rfl⟩

@[simp] theorem at_hold : (t.hold p).At j q b ↔ t.At j q b := by
  simp only [At, read_hold]
  rfl

theorem at_put (h : t.put p = some t') : t'.At j q b ↔ t.At j q b := by
  obtain ⟨hmem, hchain, k, hk, hlink⟩ := put_eq_some h
  simp only [At, hchain]
  refine and_congr_right fun hq => ?_
  simp only [read, hmem, get?_lower]
  split_ifs with hqp
  · subst hqp
    obtain ⟨c, hc, rfl⟩ := Option.map_eq_some_iff.mp hk
    simp [hc, hlink ⟨j, hq⟩]
  · rfl

theorem at_drop : (t.drop p).At j q b ↔ t.At j q b ∧ q ≠ p := by
  by_cases hqp : q = p
  · simp [At, drop, hqp]
  · simp [At, drop, read, get?_lower, hqp]

theorem mem_chain_relink {h : t.Linked p} : q ∈ (t.relink p i f h).chain j ↔
    (q = p ∧ j = i) ∨ (q ≠ p ∧ q ∈ t.chain j) := by
  simp only [relink, Function.update_apply]
  by_cases hj : j = i
  · by_cases hqp : q = p <;> simp [hj, hqp]
  · by_cases hqp : q = p <;> simp [hj, hqp]

theorem at_relink (h : t.Linked p) : (t.relink p i f h).At j q b ↔
    (q = p ∧ j = i ∧ ∃ a, t.read p = some a ∧ b = f a) ∨ (q ≠ p ∧ t.At j q b) := by
  have hread : (t.relink p i f h).read q = (t.edit p f).read q := rfl
  simp only [At, mem_chain_relink, hread, read_edit, Option.map_eq_some_iff]
  by_cases hqp : q = p
  · simp [hqp, eq_comm]
  · simp [hqp]

end At

/-! ## Sweeping -/

theorem Linked.drop {t : ChainTable n α} {p r : ℕ} (h : t.Linked r) (hr : r ≠ p) :
    (t.drop p).Linked r := by
  obtain ⟨i, hi⟩ := h
  exact ⟨i, List.mem_filter.mpr ⟨hi, by simpa using hr⟩⟩

theorem not_linked_drop (t : ChainTable n α) (p : ℕ) : ¬(t.drop p).Linked p := by
  rintro ⟨i, hi⟩
  simp [ChainTable.drop] at hi

/-- The pointers a walk over all chains meets, each once. -/
theorem nodup_linked (t : ChainTable n α) : ((List.finRange n).flatMap t.chain).Nodup := by
  refine List.nodup_flatMap.mpr ⟨fun i _ => t.once i, ?_⟩
  refine (List.nodup_finRange n).imp ?_
  intro i j hij p hi hj
  exact hij (t.apart hi hj)

theorem mem_linked {t : ChainTable n α} {p : ℕ} :
    p ∈ (List.finRange n).flatMap t.chain ↔ t.Linked p := by
  simp [List.mem_flatMap, Linked]

/-- What holds before a sweep and is kept when a linked cell is dropped holds after
the sweep. -/
theorem sweep_induction {P : ChainTable n α → Prop} {q : α → Bool} {t : ChainTable n α}
    (hdrop : ∀ t p, t.Linked p → P t → P (t.drop p)) (h : P t) : P (t.sweep q) := by
  have key : ∀ (ps : List ℕ) (t : ChainTable n α), ps.Nodup → (∀ p ∈ ps, t.Linked p) → P t →
      P (ps.foldl (fun t p => if (t.read p).any q then t.drop p else t) t) := by
    intro ps
    induction ps with
    | nil => exact fun _ _ _ ht => ht
    | cons p ps ih =>
        intro t hps hlinked ht
        obtain ⟨hp, hps⟩ := List.nodup_cons.mp hps
        rw [List.foldl_cons]
        split_ifs
        · refine ih _ hps (fun r hr => ?_) (hdrop t p (hlinked p List.mem_cons_self) ht)
          exact (hlinked r (List.mem_cons_of_mem _ hr)).drop fun h => hp (h ▸ hr)
        · exact ih _ hps (fun r hr => hlinked r (List.mem_cons_of_mem _ hr)) ht
  exact key _ t t.nodup_linked (fun p hp => mem_linked.mp hp) h

theorem at_sweep {q : α → Bool} {t : ChainTable n α} {i : Fin n} {r : ℕ} {b : α} :
    (t.sweep q).At i r b ↔ t.At i r b ∧ q b = false := by
  have key : ∀ (ps : List ℕ) (t : ChainTable n α),
      (ps.foldl (fun t p => if (t.read p).any q then t.drop p else t) t).At i r b ↔
        t.At i r b ∧ (r ∈ ps → q b = false) := by
    intro ps
    induction ps with
    | nil => simp
    | cons p ps ih =>
        intro t
        rw [List.foldl_cons, ih]
        split_ifs with hq
        · rw [at_drop]
          by_cases hrp : r = p
          · subst hrp
            refine iff_of_false (by simp) ?_
            rintro ⟨hat, hb⟩
            simp [hat.2, hb List.mem_cons_self] at hq
          · simp [hrp]
        · refine and_congr_right fun hat => ?_
          by_cases hrp : r = p
          · subst hrp
            have hb : q b = false := by simpa [hat.2] using hq
            simp [hb]
          · simp [hrp]
  rw [sweep, key]
  refine and_congr_right fun hat => ?_
  simp [mem_linked.mpr hat.linked]

end ChainTable
