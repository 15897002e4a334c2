import Mathlib.Data.List.Nodup
import Mathlib.Data.List.Forall2
import Mathlib.Tactic.Common

/-!
# Linked lists of heap cells

Kernel lists link structures that other code holds by address. A list is
modelled with the address of every cell, so that "this entry is still linked"
and "the same entry now reads so" are statements about one address. Addresses
are distinct and below the next address the allocator hands out; both facts are
fields, so every operation below keeps them by construction.
-/

@[ext]
structure HeapList (α : Type*) where
  cells : List (ℕ × α)
  next : ℕ
  nodup : (cells.map Prod.fst).Nodup
  fresh : ∀ c ∈ cells, c.1 < next

namespace HeapList

variable {α : Type*}

def empty : HeapList α := ⟨[], 0, by simp, by simp⟩

instance : Inhabited (HeapList α) := ⟨empty⟩

@[simp] theorem cells_empty : (empty : HeapList α).cells = [] := rfl

theorem eq_of_mem {l : HeapList α} {p : ℕ} {a b : α} (ha : (p, a) ∈ l.cells)
    (hb : (p, b) ∈ l.cells) : a = b := by
  have h := List.inj_on_of_nodup_map l.nodup ha hb rfl
  simpa using h

def get? (l : HeapList α) (p : ℕ) : Option α :=
  (l.cells.find? fun c => c.1 == p).map Prod.snd

theorem get?_eq_some {l : HeapList α} {p : ℕ} {a : α} :
    l.get? p = some a ↔ (p, a) ∈ l.cells := by
  unfold get?
  constructor
  · intro h
    obtain ⟨c, hc, rfl⟩ := Option.map_eq_some_iff.mp h
    have hp : c.1 = p := by simpa using List.find?_some hc
    exact hp ▸ List.mem_of_find?_eq_some hc
  · intro h
    cases hf : l.cells.find? fun c => c.1 == p with
    | none =>
        have := List.find?_eq_none.mp hf (p, a) h
        simp at this
    | some c =>
        have hp : c.1 = p := by simpa using List.find?_some hf
        have hc : (p, c.2) ∈ l.cells := hp ▸ List.mem_of_find?_eq_some hf
        simp [eq_of_mem hc h]

def find? (l : HeapList α) (q : α → Bool) : Option (ℕ × α) :=
  l.cells.find? fun c => q c.2

theorem mem_of_find? {l : HeapList α} {q : α → Bool} {c : ℕ × α} (h : l.find? q = some c) :
    c ∈ l.cells := List.mem_of_find?_eq_some h

theorem of_find? {l : HeapList α} {q : α → Bool} {c : ℕ × α} (h : l.find? q = some c) :
    q c.2 = true := by simpa using List.find?_some h

theorem not_of_find?_none {l : HeapList α} {q : α → Bool} (h : l.find? q = none) {c : ℕ × α}
    (hc : c ∈ l.cells) : q c.2 = false := by
  simpa using List.find?_eq_none.mp h c hc

/-- Link a freshly allocated cell at the head (`list_add`). -/
def push (l : HeapList α) (a : α) : HeapList α where
  cells := (l.next, a) :: l.cells
  next := l.next + 1
  nodup := by
    rw [List.map_cons, List.nodup_cons]
    refine ⟨?_, l.nodup⟩
    intro h
    obtain ⟨c, hc, hp⟩ := List.mem_map.mp h
    exact absurd (l.fresh c hc) (by simp only at hp; omega)
  fresh := by
    intro c hc
    rcases List.mem_cons.mp hc with rfl | h
    · exact Nat.lt_succ_self _
    · exact Nat.lt_succ_of_lt (l.fresh c h)

@[simp] theorem cells_push (l : HeapList α) (a : α) :
    (l.push a).cells = (l.next, a) :: l.cells := rfl

theorem next_notMem (l : HeapList α) (a : α) : (l.next, a) ∉ l.cells :=
  fun h => Nat.lt_irrefl _ (l.fresh _ h)

theorem get?_push (l : HeapList α) (a : α) (p : ℕ) :
    (l.push a).get? p = if p = l.next then some a else l.get? p := by
  unfold get?
  rw [cells_push, List.find?_cons]
  by_cases hp : l.next = p
  · simp [hp]
  · have hb : (l.next == p) = false := by simpa using hp
    simp only [hb, Ne.symm hp, if_false]

/-- Unlink the cells that `keep` refuses (`list_del` in a safe walk). -/
def filter (l : HeapList α) (keep : ℕ → α → Bool) : HeapList α where
  cells := l.cells.filter fun c => keep c.1 c.2
  next := l.next
  nodup := l.nodup.sublist (List.filter_sublist.map _)
  fresh := fun c hc => l.fresh c (List.mem_of_mem_filter hc)

@[simp] theorem mem_filter {l : HeapList α} {keep : ℕ → α → Bool} {c : ℕ × α} :
    c ∈ (l.filter keep).cells ↔ c ∈ l.cells ∧ keep c.1 c.2 = true := List.mem_filter

def erase (l : HeapList α) (p : ℕ) : HeapList α := l.filter fun q _ => q != p

@[simp] theorem mem_erase {l : HeapList α} {p : ℕ} {c : ℕ × α} :
    c ∈ (l.erase p).cells ↔ c ∈ l.cells ∧ c.1 ≠ p := by
  simp [erase]

theorem get?_erase (l : HeapList α) (p q : ℕ) :
    (l.erase p).get? q = if q = p then none else l.get? q := by
  ext a
  rw [get?_eq_some, mem_erase]
  split_ifs with hq
  · simp [hq]
  · rw [get?_eq_some]
    exact and_iff_left hq

/-- Rewrite cells in place; `cells'` holds the same addresses in the same order. -/
def rewrite (l : HeapList α) (cells' : List (ℕ × α))
    (h : cells'.map Prod.fst = l.cells.map Prod.fst) : HeapList α where
  cells := cells'
  next := l.next
  nodup := h ▸ l.nodup
  fresh := by
    intro c hc
    have hm : c.1 ∈ l.cells.map Prod.fst := h ▸ List.mem_map_of_mem hc
    obtain ⟨d, hd, he⟩ := List.mem_map.mp hm
    exact he ▸ l.fresh d hd

def map (l : HeapList α) (f : ℕ → α → α) : HeapList α :=
  l.rewrite (l.cells.map fun c => (c.1, f c.1 c.2)) (by simp [Function.comp_def])

@[simp] theorem cells_map (l : HeapList α) (f : ℕ → α → α) :
    (l.map f).cells = l.cells.map fun c => (c.1, f c.1 c.2) := rfl

theorem mem_map {l : HeapList α} {f : ℕ → α → α} {p : ℕ} {b : α} :
    (p, b) ∈ (l.map f).cells ↔ ∃ a, (p, a) ∈ l.cells ∧ b = f p a := by
  simp only [cells_map, List.mem_map, Prod.mk.injEq, Prod.exists]
  constructor
  · rintro ⟨q, a, ha, rfl, rfl⟩
    exact ⟨a, ha, rfl⟩
  · rintro ⟨a, ha, rfl⟩
    exact ⟨p, a, ha, rfl, rfl⟩

def modify (l : HeapList α) (p : ℕ) (f : α → α) : HeapList α :=
  l.map fun q a => if q = p then f a else a

theorem mem_modify {l : HeapList α} {p q : ℕ} {f : α → α} {b : α} :
    (q, b) ∈ (l.modify p f).cells ↔
      ∃ a, (q, a) ∈ l.cells ∧ b = if q = p then f a else a := mem_map

theorem mem_modify_self {l : HeapList α} {p : ℕ} {f : α → α} {a : α}
    (h : (p, a) ∈ l.cells) : (p, f a) ∈ (l.modify p f).cells :=
  mem_modify.mpr ⟨a, h, by simp⟩

theorem get?_modify (l : HeapList α) (p q : ℕ) (f : α → α) :
    (l.modify p f).get? q = (l.get? q).map fun a => if q = p then f a else a := by
  ext b
  rw [get?_eq_some, mem_modify, Option.map_eq_some_iff]
  constructor
  · rintro ⟨a, ha, hb⟩
    exact ⟨a, get?_eq_some.mpr ha, hb.symm⟩
  · rintro ⟨a, ha, hb⟩
    exact ⟨a, get?_eq_some.mp ha, hb.symm⟩

/-- A rewriting that keeps the key leaves the search at the same cell. -/
theorem find?_map (f : ℕ → α → α) (q : α → Bool) (hf : ∀ p a, q (f p a) = q a)
    (l : HeapList α) : (l.map f).find? q = (l.find? q).map fun c => (c.1, f c.1 c.2) := by
  change (l.cells.map _).find? _ = (l.cells.find? _).map _
  induction l.cells with
  | nil => rfl
  | cons c cs ih =>
      cases hq : q c.2 with
      | true => simp [hf, hq]
      | false =>
          simp only [List.map_cons, List.find?_cons, hf, hq]
          exact ih

theorem find?_modify (p : ℕ) (f : α → α) (q : α → Bool) (hf : ∀ a, q (f a) = q a)
    (l : HeapList α) :
    (l.modify p f).find? q = (l.find? q).map fun c => (c.1, if c.1 = p then f c.2 else c.2) := by
  refine find?_map _ q (fun r a => ?_) l
  split_ifs
  · exact hf a
  · rfl

/-- A walk that rewrites each cell it passes and stops at the first one that,
rewritten, satisfies `stop`. -/
def walkCells (f : α → α) (stop : α → Bool) : List (ℕ × α) → List (ℕ × α)
  | [] => []
  | c :: cs => (c.1, f c.2) :: if stop (f c.2) then cs else walkCells f stop cs

theorem walkCells_fst (f : α → α) (stop : α → Bool) (cs : List (ℕ × α)) :
    (walkCells f stop cs).map Prod.fst = cs.map Prod.fst := by
  induction cs with
  | nil => rfl
  | cons c cs ih =>
      simp only [walkCells, List.map_cons]
      split_ifs
      · rfl
      · rw [ih]

def walk (l : HeapList α) (f : α → α) (stop : α → Bool) : HeapList α :=
  l.rewrite (walkCells f stop l.cells) (walkCells_fst f stop l.cells)

/-- A walk stops at the first matching cell and has rewritten it. -/
theorem find?_walk (f : α → α) (stop : α → Bool) (hf : ∀ a, stop (f a) = stop a)
    (l : HeapList α) :
    (l.walk f stop).find? stop = (l.find? stop).map fun c => (c.1, f c.2) := by
  change (walkCells f stop l.cells).find? _ = (l.cells.find? _).map _
  induction l.cells with
  | nil => rfl
  | cons c cs ih =>
      by_cases hs : stop c.2 = true
      · simp [walkCells, hf, hs]
      · simpa [walkCells, List.find?_cons, hf, hs] using ih

def passes (q : α → Bool) (cs : List (ℕ × α)) : Bool := cs.all fun c => !q c.2

/-- The cell that a search finds, by its place in the list. -/
theorem passes_iff_find? {l : HeapList α} {pre post : List (ℕ × α)} {p : ℕ} {a : α}
    {q : α → Bool} (hcells : l.cells = pre ++ (p, a) :: post) :
    (passes q pre = true ∧ q a = true) ↔ l.find? q = some (p, a) := by
  have hfind : l.find? q = (pre ++ (p, a) :: post).find? fun c => q c.2 := by
    rw [← hcells]
    rfl
  constructor
  · rintro ⟨hpasses, ha⟩
    have hnone : (pre.find? fun c => q c.2) = none := by simpa [passes] using hpasses
    simp [hfind, hnone, ha]
  · intro hfound
    have hnodup := l.nodup
    rw [hcells, List.map_append, List.map_cons, List.nodup_middle, List.nodup_cons] at hnodup
    have hnone : (pre.find? fun c => q c.2) = none := by
      by_contra hsome
      obtain ⟨d, hd⟩ := Option.ne_none_iff_exists'.mp hsome
      rw [hfind, List.find?_append, hd] at hfound
      obtain rfl : d = (p, a) := Option.some.inj hfound
      have hmem : p ∈ pre.map Prod.fst :=
        List.mem_map.mpr ⟨(p, a), List.mem_of_find?_eq_some hd, rfl⟩
      exact hnodup.1 (List.mem_append_left _ hmem)
    exact ⟨by simpa [passes] using hnone, of_find? hfound⟩

theorem passes_iff_find?_fst {l : HeapList α} {pre post : List (ℕ × α)} {p : ℕ} {a : α}
    {q : α → Bool} (hcells : l.cells = pre ++ (p, a) :: post) :
    (passes q pre = true ∧ q a = true) ↔ (l.find? q).map Prod.fst = some p := by
  rw [passes_iff_find? hcells, Option.map_eq_some_iff]
  constructor
  · intro hfound
    exact ⟨_, hfound, rfl⟩
  · rintro ⟨⟨r, b⟩, hfound, rfl⟩
    have hmem : (r, a) ∈ l.cells := by simp [hcells]
    rw [hfound, eq_of_mem (mem_of_find? hfound) hmem]

/-- A walk comes to a cell when it passes those before it. -/
theorem walkCells_split (f : α → α) (stop : α → Bool) (hf : ∀ a, stop (f a) = stop a)
    (pre : List (ℕ × α)) (c : ℕ × α) (post : List (ℕ × α)) :
    ∃ pre' post', walkCells f stop (pre ++ c :: post) =
        pre' ++ (c.1, if passes stop pre then f c.2 else c.2) :: post' ∧
      List.Forall₂ (fun c c' => c'.2 = c.2 ∨ c'.2 = f c.2) pre pre' := by
  induction pre with
  | nil => exact ⟨[], _, rfl, .nil⟩
  | cons d ds ih =>
      rw [List.cons_append, walkCells, hf]
      cases hstop : stop d.2 with
      | true =>
          refine ⟨(d.1, f d.2) :: ds, post, ?_, ?_⟩
          · simp [passes, hstop]
          · exact .cons (.inr rfl) (List.forall₂_same.mpr fun c _ => .inl rfl)
      | false =>
          obtain ⟨pre', post', hcells, hds⟩ := ih
          have hpasses : passes stop (d :: ds) = passes stop ds := by simp [passes, hstop]
          refine ⟨(d.1, f d.2) :: pre', post', ?_, .cons (.inr rfl) hds⟩
          rw [hpasses, if_neg Bool.false_ne_true, hcells, List.cons_append]

theorem passes_rewritten {f : α → α} {q : α → Bool} (hf : ∀ a, q (f a) = q a)
    {cs cs' : List (ℕ × α)} (h : List.Forall₂ (fun c c' => c'.2 = c.2 ∨ c'.2 = f c.2) cs cs') :
    passes q cs' = passes q cs := by
  induction h with
  | nil => rfl
  | @cons c c' _ _ hc _ ih =>
      have hq : q c'.2 = q c.2 := by
        rcases hc with hc | hc
        · rw [hc]
        · rw [hc, hf]
      rw [passes, List.all_cons, hq]
      exact congrArg _ ih

def walks (l : HeapList α) (f : α → α) (stops : List (α → Bool)) : HeapList α :=
  stops.foldl (fun l stop => l.walk f stop) l

/-- A cell is rewritten by the walks when one of them comes to it. -/
theorem get?_walks {f : α → α} (hidem : ∀ a, f (f a) = f a) {stops : List (α → Bool)}
    (hf : ∀ stop ∈ stops, ∀ a, stop (f a) = stop a) {l : HeapList α}
    {pre post : List (ℕ × α)} {p : ℕ} {a : α} (hcells : l.cells = pre ++ (p, a) :: post) :
    (l.walks f stops).get? p =
      some (if stops.any fun stop => passes stop pre then f a else a) := by
  induction stops generalizing l pre a post with
  | nil => exact get?_eq_some.mpr (by simp [walks, hcells])
  | cons stop stops ih =>
      have htail := fun stop' hmem => hf stop' (List.mem_cons_of_mem stop hmem)
      obtain ⟨pre', post', hwalk, hpre⟩ :=
        walkCells_split f stop (hf stop List.mem_cons_self) pre (p, a) post
      have hcells' : (l.walk f stop).cells = _ := (congrArg _ hcells).trans hwalk
      have hpasses : (stops.any fun stop => passes stop pre') =
          stops.any fun stop => passes stop pre := by
        rw [Bool.eq_iff_iff, List.any_eq_true, List.any_eq_true]
        refine exists_congr fun stop' => and_congr_right fun hmem => ?_
        rw [passes_rewritten (htail stop' hmem) hpre]
      refine (ih htail hcells').trans ?_
      rw [hpasses, List.any_cons]
      cases passes stop pre with
      | true => simp [hidem]
      | false => simp

/-! ## Lists that hold the same addresses -/

def Pointwise (R : α → α → Prop) (l l' : HeapList α) : Prop :=
  List.Forall₂ (fun c c' => c.1 = c'.1 ∧ R c.2 c'.2) l.cells l'.cells

namespace Pointwise

variable {R : α → α → Prop} {l l' l'' : HeapList α}

theorem refl (hR : ∀ a, R a a) (l : HeapList α) : Pointwise R l l :=
  List.forall₂_same.mpr fun c _ => ⟨rfl, hR c.2⟩

theorem trans (hR : ∀ {a b c}, R a b → R b c → R a c) (h : Pointwise R l l')
    (h' : Pointwise R l' l'') : Pointwise R l l'' := by
  unfold Pointwise at *
  generalize l.cells = cs, l'.cells = cs', l''.cells = cs'' at *
  induction h generalizing cs'' with
  | nil => cases h'; exact .nil
  | cons hc _ ih =>
      cases h' with
      | cons hc' ht' => exact .cons ⟨hc.1.trans hc'.1, hR hc.2 hc'.2⟩ (ih _ ht')

theorem mem_right (h : Pointwise R l l') {p : ℕ} {a : α} (ha : (p, a) ∈ l.cells) :
    ∃ b, (p, b) ∈ l'.cells ∧ R a b := by
  unfold Pointwise at h
  generalize l.cells = cs, l'.cells = cs' at *
  induction h with
  | nil => simp at ha
  | @cons _ c' _ _ hc _ ih =>
      rcases List.mem_cons.mp ha with rfl | ha
      · exact ⟨c'.2, List.mem_cons.mpr (.inl (Prod.ext hc.1 rfl)), hc.2⟩
      · obtain ⟨b, hb, hab⟩ := ih ha
        exact ⟨b, List.mem_cons_of_mem _ hb, hab⟩

theorem mem_left (h : Pointwise R l l') {p : ℕ} {b : α} (hb : (p, b) ∈ l'.cells) :
    ∃ a, (p, a) ∈ l.cells ∧ R a b := by
  unfold Pointwise at h
  generalize l.cells = cs, l'.cells = cs' at *
  induction h with
  | nil => simp at hb
  | @cons c _ _ _ hc _ ih =>
      rcases List.mem_cons.mp hb with rfl | hb
      · exact ⟨c.2, List.mem_cons.mpr (.inl (Prod.ext hc.1.symm rfl)), hc.2⟩
      · obtain ⟨a, ha, hab⟩ := ih hb
        exact ⟨a, List.mem_cons_of_mem _ ha, hab⟩

theorem fst_eq (h : Pointwise R l l') : l.cells.map Prod.fst = l'.cells.map Prod.fst := by
  unfold Pointwise at h
  generalize l.cells = cs, l'.cells = cs' at *
  induction h with
  | nil => rfl
  | cons hc _ ih => rw [List.map_cons, List.map_cons, hc.1, ih]

/-- A key that `R` keeps reads the same along both lists. -/
theorem map_snd_eq {β : Type*} {key : α → β} (h : Pointwise R l l')
    (hkey : ∀ {a b}, R a b → key a = key b) :
    (l.cells.map fun c => key c.2) = l'.cells.map fun c => key c.2 := by
  unfold Pointwise at h
  generalize l.cells = cs, l'.cells = cs' at *
  induction h with
  | nil => rfl
  | cons hc _ ih => rw [List.map_cons, List.map_cons, hkey hc.2, ih]

/-- A search by a key that `R` keeps finds the same cell on both sides. -/
theorem find?_eq (h : Pointwise R l l') {q : α → Bool} (hq : ∀ {a b}, R a b → q a = q b) :
    (l.find? q = none ∧ l'.find? q = none) ∨
      ∃ p a b, l.find? q = some (p, a) ∧ l'.find? q = some (p, b) ∧ R a b := by
  unfold Pointwise at h
  unfold HeapList.find?
  generalize l.cells = cs, l'.cells = cs' at *
  induction h with
  | nil => exact .inl ⟨rfl, rfl⟩
  | @cons c c' _ _ hc _ ih =>
      have hqc := hq hc.2
      cases hs : q c.2 with
      | true =>
          refine .inr ⟨c.1, c.2, c'.2, ?_, ?_, hc.2⟩
          · simp [hs]
          · simp [← hqc, hs, hc.1]
      | false => simpa [hs, ← hqc] using ih

end Pointwise

theorem walk_pointwise {R : α → α → Prop} (hR : ∀ a, R a a) {f : α → α} (hf : ∀ a, R a (f a))
    (stop : α → Bool) (l : HeapList α) : Pointwise R l (l.walk f stop) := by
  change List.Forall₂ _ l.cells (walkCells f stop l.cells)
  induction l.cells with
  | nil => exact .nil
  | cons c cs ih =>
      refine .cons ⟨rfl, hf c.2⟩ ?_
      split_ifs
      · exact List.forall₂_same.mpr fun c _ => ⟨rfl, hR c.2⟩
      · exact ih

theorem Pointwise.walk {R : α → α → Prop} {l l' : HeapList α} (h : Pointwise R l l')
    {f : α → α} (hf : ∀ {a b}, R a b → R (f a) (f b)) {stop : α → Bool}
    (hstop : ∀ {a b}, R a b → stop a = stop b) :
    Pointwise R (l.walk f stop) (l'.walk f stop) := by
  change List.Forall₂ _ (walkCells f stop l.cells) (walkCells f stop l'.cells)
  unfold Pointwise at h
  generalize l.cells = cs, l'.cells = cs' at *
  induction h with
  | nil => exact .nil
  | cons hc htail ih =>
      rw [walkCells, walkCells, hstop (hf hc.2)]
      refine .cons ⟨hc.1, hf hc.2⟩ ?_
      split_ifs
      · exact htail
      · exact ih

theorem map_pointwise {R : α → α → Prop} {l : HeapList α} {f : ℕ → α → α}
    (hf : ∀ p a, (p, a) ∈ l.cells → R a (f p a)) : Pointwise R l (l.map f) := by
  change List.Forall₂ _ l.cells (l.cells.map _)
  rw [List.forall₂_map_right_iff]
  exact List.forall₂_same.mpr fun c hc => ⟨rfl, hf c.1 c.2 hc⟩

theorem modify_pointwise {R : α → α → Prop} (hR : ∀ a, R a a) {f : α → α} (hf : ∀ a, R a (f a))
    (p : ℕ) (l : HeapList α) : Pointwise R l (l.modify p f) := by
  refine map_pointwise fun q a _ => ?_
  split_ifs
  · exact hf a
  · exact hR a

end HeapList
