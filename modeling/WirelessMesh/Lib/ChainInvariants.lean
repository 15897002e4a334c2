import WirelessMesh.Lib.ChainTable
import Mathlib.Data.List.Find

/-!
# Invariants of chained tables

Two facts that a user of a `ChainTable` wants of every state: the counts are the
numbers of references (so no pointer in use is freed and nothing is kept for
ever), and the chains are those of the keys, each key once (so a lookup finds what
is linked). Each operation keeps both; re-keying a cell keeps the second exactly
when the new key was free.
-/

namespace ChainTable

variable {n : ℕ} {α : Type*}

/-! ## References -/

/-- A cell is in memory as long as a chain or a holder refers to it, and its count
is the number of these references. -/
def Balanced (t : ChainTable n α) (held : List ℕ) : Prop :=
  ∀ p k, t.useCount p = some k ↔ 0 < k ∧ k = held.count p + if t.Linked p then 1 else 0

theorem map_useCount_get?_lower (mem : HeapList (Counted α)) (p q : ℕ) :
    ((lower mem p).get? q).map Counted.useCount =
      if q = p then ((mem.get? q).map Counted.useCount).bind fun k =>
        if 1 < k then some (k - 1) else none
      else (mem.get? q).map Counted.useCount := by
  rw [get?_lower]
  split_ifs
  · cases mem.get? q with
    | none => rfl
    | some c =>
        simp only [Option.bind_some, Option.map_some]
        split_ifs <;> rfl
  · rfl

namespace Balanced

variable {t t' : ChainTable n α} {held : List ℕ} {i : Fin n} {p : ℕ} {a : α} {f : α → α}

theorem empty : (ChainTable.empty : ChainTable n α).Balanced [] := by
  intro p k
  refine iff_of_false (by simp [ChainTable.empty, useCount, HeapList.get?]) ?_
  simp only [List.count_nil, Linked, ChainTable.empty, List.not_mem_nil, exists_false, if_false]
  omega

theorem insert (h : t.Balanced held) : (t.insert i a).Balanced held := by
  intro q k
  rw [useCount_insert]
  split_ifs with hq hlink hlink
  · -- The new address is out of use: no holder has it.
    have hnone : ¬t.Linked q := by
      rintro ⟨j, hj⟩
      exact (Linked.at hj).elim fun _ ha => not_at_next (hq ▸ ha)
    have hcount : held.count q = 0 := by
      by_contra hpos
      have hsome := (h q (held.count q)).mpr ⟨by omega, by simp [hnone]⟩
      obtain ⟨b, hb⟩ := useCount_eq_some.mp hsome
      exact t.mem.next_notMem _ (hq ▸ hb)
    rw [hcount, Option.some.injEq]
    omega
  · exact absurd ⟨i, mem_chain_insert.mpr (.inl ⟨rfl, hq⟩)⟩ hlink
  · have hold : t.Linked q := by
      obtain ⟨j, hj⟩ := hlink
      rcases mem_chain_insert.mp hj with ⟨_, hnew⟩ | hj
      · exact absurd hnew hq
      · exact ⟨j, hj⟩
    rw [h q k, if_pos hold]
  · have hold : ¬t.Linked q := fun ⟨j, hj⟩ => hlink ⟨j, mem_chain_insert.mpr (.inr hj)⟩
    rw [h q k, if_neg hold]

theorem edit (h : t.Balanced held) : (t.edit p f).Balanced held := by
  intro q k
  rw [useCount_edit]
  exact h q k

theorem linked_relink {hp : t.Linked p} {q : ℕ} : (t.relink p i f hp).Linked q ↔ t.Linked q := by
  simp only [Linked, mem_chain_relink]
  constructor
  · rintro ⟨j, ⟨rfl, _⟩ | ⟨_, hj⟩⟩
    · exact hp
    · exact ⟨j, hj⟩
  · rintro ⟨j, hj⟩
    by_cases hqp : q = p
    · exact ⟨i, .inl ⟨hqp, rfl⟩⟩
    · exact ⟨j, .inr ⟨hqp, hj⟩⟩

theorem relink {hp : t.Linked p} (h : t.Balanced held) : (t.relink p i f hp).Balanced held := by
  intro q k
  have hcount : (t.relink p i f hp).useCount q = (t.edit p f).useCount q := rfl
  rw [hcount, useCount_edit, h q k]
  simp only [linked_relink]

theorem hold (h : t.Balanced held) (hp : t.Linked p) : (t.hold p).Balanced (p :: held) := by
  intro q k
  have hlink : (t.hold p).Linked q ↔ t.Linked q := Iff.rfl
  rw [useCount_hold, Option.map_eq_some_iff]
  simp only [hlink, List.count_cons, h q, beq_iff_eq]
  by_cases hqp : q = p
  · subst hqp
    simp only [if_true, hp]
    constructor
    · rintro ⟨m, ⟨_, rfl⟩, rfl⟩
      omega
    · rintro ⟨_, rfl⟩
      exact ⟨held.count q + 1, by omega, by omega⟩
  · simp only [hqp, Ne.symm hqp, if_false]
    constructor
    · rintro ⟨m, hm, rfl⟩
      exact hm
    · exact fun hk => ⟨k, hk, rfl⟩

theorem drop (h : t.Balanced held) (hp : t.Linked p) : (t.drop p).Balanced held := by
  intro q k
  have hcount := map_useCount_get?_lower t.mem p q
  change (t.drop p).useCount q = if q = p then (t.useCount q).bind _ else t.useCount q at hcount
  rw [hcount]
  by_cases hqp : q = p
  · subst hqp
    rw [if_pos rfl, if_neg (t.not_linked_drop q), Option.bind_eq_some_iff]
    simp only [h q, if_pos hp]
    constructor
    · rintro ⟨m, ⟨_, rfl⟩, hk⟩
      split_ifs at hk
      have hk' := Option.some.inj hk
      omega
    · rintro ⟨hpos, rfl⟩
      have hone : 1 < held.count q + 1 := by omega
      exact ⟨held.count q + 1, by omega, by rw [if_pos hone]; rfl⟩
  · rw [if_neg hqp, h q k]
    have hlink : (t.drop p).Linked q ↔ t.Linked q :=
      ⟨fun ⟨j, hj⟩ => ⟨j, List.mem_of_mem_filter hj⟩, fun hq => hq.drop hqp⟩
    simp only [hlink]

theorem sweep (h : t.Balanced held) (q : α → Bool) : (t.sweep q).Balanced held :=
  sweep_induction (P := fun t => t.Balanced held) (fun _ _ hp ht => ht.drop hp) h

theorem put (h : t.Balanced held) (hp : p ∈ held) :
    ∃ t', t.put p = some t' ∧ t'.Balanced (held.erase p) := by
  have hpos : 0 < held.count p := List.count_pos_iff.mpr hp
  have hsome := (h p _).mpr ⟨by omega, rfl⟩
  obtain ⟨t', ht'⟩ := put_isSome hsome (fun hl => by rw [if_pos hl]; omega)
  refine ⟨t', ht', fun q k => ?_⟩
  obtain ⟨hmem, hchain, -⟩ := put_eq_some ht'
  have hlink : t'.Linked q ↔ t.Linked q := by simp only [Linked, hchain]
  have hcount := map_useCount_get?_lower t.mem p q
  rw [← hmem] at hcount
  change t'.useCount q = if q = p then (t.useCount q).bind _ else t.useCount q at hcount
  rw [hcount]
  by_cases hqp : q = p
  · subst hqp
    rw [if_pos rfl, hsome, List.count_erase_self, Option.bind_some]
    simp only [hlink]
    generalize (if t.Linked q then 1 else 0) = l
    split_ifs with hone
    · rw [Option.some.injEq]
      omega
    · simp only [false_iff, not_and]
      omega
  · rw [if_neg hqp, h q k, List.count_erase_of_ne hqp]
    simp only [hlink]

end Balanced

/-! ## Keys -/

section Keys

variable {κ : Type*} (hash : κ → Fin n) (key : α → κ)

/-- Each cell is on the chain of its key, and no two cells have the same key. -/
structure Keyed (t : ChainTable n α) : Prop where
  homed : ∀ {i p a}, t.At i p a → hash (key a) = i
  distinct : ∀ {i j p q a b}, t.At i p a → t.At j q b → key a = key b → p = q

variable {hash key} {t t' : ChainTable n α} {i : Fin n} {p : ℕ} {a : α} {k : κ} {f : α → α}

namespace Keyed

theorem empty : Keyed hash key (ChainTable.empty : ChainTable n α) where
  homed := by
    rintro i p a ⟨h, _⟩
    simp [ChainTable.empty] at h
  distinct := by
    rintro i j p q a b ⟨h, _⟩
    simp [ChainTable.empty] at h

/-- What is linked afterwards was linked before, with the same key. -/
theorem of_at (h : Keyed hash key t)
    (hsub : ∀ {i p b}, t'.At i p b → ∃ a, t.At i p a ∧ key a = key b) : Keyed hash key t' where
  homed := by
    intro i p b hb
    obtain ⟨a, ha, hab⟩ := hsub hb
    exact hab ▸ h.homed ha
  distinct := by
    intro i j p q b d hb hd hkey
    obtain ⟨a, ha, hab⟩ := hsub hb
    obtain ⟨c, hc, hcd⟩ := hsub hd
    exact h.distinct ha hc (hab.trans (hkey.trans hcd.symm))

theorem edit (h : Keyed hash key t) (hf : ∀ a, key (f a) = key a) :
    Keyed hash key (t.edit p f) := by
  refine h.of_at fun hb => ?_
  obtain ⟨a, ha, rfl⟩ := at_edit.mp hb
  refine ⟨a, ha, ?_⟩
  split_ifs
  · exact (hf a).symm
  · rfl

theorem sweep (h : Keyed hash key t) (q : α → Bool) : Keyed hash key (t.sweep q) :=
  h.of_at fun hb => ⟨_, (at_sweep.mp hb).1, rfl⟩

/-- Giving a cell a new key keeps the table keyed exactly when no other cell has
that key. -/
theorem relink_iff (h : Keyed hash key t) (hp : t.Linked p) (hf : ∀ a, key (f a) = k) :
    Keyed hash key (t.relink p (hash k) f hp) ↔ ∀ {j q b}, t.At j q b → key b = k → q = p := by
  obtain ⟨i, hi⟩ := id hp
  obtain ⟨a, ha⟩ := Linked.at hi
  constructor
  · intro h' j q b hb hbk
    by_contra hqp
    have hself : (t.relink p (hash k) f hp).At (hash k) p (f a) :=
      (at_relink hp).mpr (.inl ⟨rfl, rfl, a, ha.2, rfl⟩)
    exact hqp (h'.distinct ((at_relink hp).mpr (.inr ⟨hqp, hb⟩)) hself (hbk.trans (hf a).symm))
  · intro hother
    refine ⟨?_, ?_⟩
    · intro j q b hb
      rcases (at_relink hp).mp hb with ⟨_, rfl, c, _, rfl⟩ | ⟨_, hb⟩
      · rw [hf]
      · exact h.homed hb
    · intro j l q r b d hb hd hkey
      rcases (at_relink hp).mp hb with ⟨rfl, _, c, _, rfl⟩ | ⟨hq, hb'⟩ <;>
        rcases (at_relink hp).mp hd with ⟨rfl, _, e, _, rfl⟩ | ⟨hr, hd'⟩
      · rfl
      · exact absurd (hother hd' (hkey.symm.trans (hf c))) hr
      · exact absurd (hother hb' (hkey.trans (hf e))) hq
      · exact h.distinct hb' hd' hkey

end Keyed

variable [DecidableEq κ]

variable (hash key) in
def lookup (t : ChainTable n α) (k : κ) : Option ℕ := t.find (hash k) fun a => key a == k

theorem at_of_lookup (h : t.lookup hash key k = some p) : ∃ a, t.At (hash k) p a ∧ key a = k := by
  obtain ⟨a, ha, hk⟩ := at_of_find h
  exact ⟨a, ha, by simpa using hk⟩

theorem ne_of_lookup_none (h : t.lookup hash key k = none) (ha : t.At (hash k) p a) :
    key a ≠ k := by simpa using not_of_find_none h ha

/-- The lookup finds the one cell of the chain that has the key. -/
theorem lookup_eq_of_unique (ha : t.At (hash k) p a) (hk : key a = k)
    (hone : ∀ q b, t.At (hash k) q b → key b = k → q = p) : t.lookup hash key k = some p := by
  cases hl : t.lookup hash key k with
  | none => exact absurd hk (ne_of_lookup_none hl ha)
  | some q =>
      obtain ⟨b, hb, hbk⟩ := at_of_lookup hl
      rw [hone q b hb hbk]

/-- In a keyed table the lookup finds every linked cell. -/
theorem Keyed.lookup_eq (h : Keyed hash key t) (ha : t.At i p a) (hk : key a = k) :
    t.lookup hash key k = some p := by
  have hi : hash k = i := hk ▸ h.homed ha
  refine lookup_eq_of_unique (hi ▸ ha) hk fun q b hb hbk => ?_
  exact h.distinct hb ha (hbk.trans hk.symm)

/-- An edit that keeps the key leaves the lookup as it was. -/
theorem lookup_edit (hf : ∀ a, key (f a) = key a) :
    (t.edit p f).lookup hash key k = t.lookup hash key k := by
  unfold lookup find
  congr 1
  funext q
  rw [read_edit]
  cases t.read q with
  | none => rfl
  | some a =>
      simp only [Option.map_some, Option.any_some]
      split_ifs
      · rw [hf]
      · rfl

/-- A new cell is found by its key, if it is on the chain of it, and hides no other key. -/
theorem lookup_insert : (t.insert i a).lookup hash key k =
    if hash k = i ∧ key a = k then some t.mem.next else t.lookup hash key k := by
  have hold : ∀ q ∈ t.chain (hash k), ((t.insert i a).read q).any (fun b => key b == k) =
      (t.read q).any fun b => key b == k := by
    intro q hq
    have hne : q ≠ t.mem.next := by
      rintro rfl
      exact (Linked.at hq).elim fun _ hb => not_at_next hb
    rw [read_insert, if_neg hne]
  unfold lookup find
  by_cases hhash : hash k = i
  · have hchain : (t.insert i a).chain (hash k) = t.mem.next :: t.chain (hash k) := by
      simp [ChainTable.insert, hhash]
    rw [hchain, List.find?_cons]
    by_cases hkey : key a = k
    · simp [hhash, hkey]
    · rw [if_neg fun h => hkey h.2]
      simp only [read_insert, if_true, Option.any_some, beq_eq_false_iff_ne.mpr hkey]
      rw [← List.find?_congr hold]
      simp only [read_insert]
  · have hchain : (t.insert i a).chain (hash k) = t.chain (hash k) := by
      simp [ChainTable.insert, Function.update_of_ne hhash]
    rw [hchain, if_neg fun h => hhash h.1]
    exact List.find?_congr hold

theorem Keyed.insert (h : Keyed hash key t) (hnone : t.lookup hash key (key a) = none) :
    Keyed hash key (t.insert (hash (key a)) a) where
  homed := by
    intro i p b hb
    rcases at_insert.mp hb with ⟨rfl, _, rfl⟩ | hb
    · rfl
    · exact h.homed hb
  distinct := by
    have hnew : ∀ {i p b}, t.At i p b → key b ≠ key a := fun hb hkey =>
      ne_of_lookup_none hnone ((hkey ▸ h.homed hb : hash (key a) = _) ▸ hb) hkey
    intro i j p q b d hb hd hkey
    rcases at_insert.mp hb with ⟨_, rfl, rfl⟩ | hb' <;>
      rcases at_insert.mp hd with ⟨_, rfl, rfl⟩ | hd'
    · rfl
    · exact absurd hkey.symm (hnew hd')
    · exact absurd hkey (hnew hb')
    · exact h.distinct hb' hd' hkey

end Keys

end ChainTable
