import WirelessMesh.Mesh.FwdInvariant

/-!
# How long an expired entry stays expired

An item has expired when the word `jiffies - ageing_time` is not before its timer, as a
signed difference of 32-bit words. Nothing in the mesh layer calls `mesh_fwd_db_cleanup`,
so an expired item stays on its chain while the counter runs on. The run below begins at
a moment `now₀` at which `mesh_fwd_db_get` refuses the item at `p`; after it any time may
pass, and the table may be called in any way that does not refresh this item.
-/

namespace WirelessMesh
namespace Mesh

open Machine MeshFwdTable

inductive AgeEvent where
  /-- Some jiffies pass. -/
  | wait (ticks : ℕ)
  | call (room : Bool) (c : DbCall)

/-- The table, the jiffies since the run began, and whether a lookup returned the item. -/
structure Ageing where
  elapsed : ℕ
  db : FwdDb
  returned : Bool

def refreshes (p : ℕ) (table : MeshFwdTable) : DbCall → Bool
  | .insert _ addr _ _ => table.hashFind addr == some p
  | .changeaddr dev _ => table.items.search (fun item => item.dest == dev && item.isLocal) == some p
  | _ => false

def returns (now : Jiffies) (p : ℕ) (table : MeshFwdTable) : DbCall → Bool
  | .get addr => (meshFwdDbGet now table addr).1 == some p
  | _ => false

def clockAfter (now₀ : Jiffies) (elapsed : ℕ) : Jiffies := now₀ + BitVec.ofNat 32 elapsed

def Ageing.step (now₀ : Jiffies) (p : ℕ) : AgeEvent → Ageing → Option Ageing
  | .wait ticks, s => some { s with elapsed := s.elapsed + ticks }
  | .call room c, s =>
      if refreshes p s.db.table c then none
      else
        let now := clockAfter now₀ s.elapsed
        (FwdDb.step (⟨now, room⟩, c) s.db).map fun db =>
          { s with db, returned := s.returned || returns now p s.db.table c }

/-- How many jiffies ago the item expired, as far as the words tell. -/
def overdue (now : Jiffies) (table : MeshFwdTable) (item : MeshFwdItem) : ℕ :=
  (table.timeout now - item.ageingTimer).toNat

/-- A lookup that meets the item comes within 2^31 jiffies of its expiry, or again so after
full turns of the counter. -/
def InTime (late p : ℕ) : AgeEvent → Ageing → Prop
  | .call _ (.get addr), s =>
      s.db.table.hashFind addr = some p → (late + s.elapsed) % 2 ^ 32 < 2 ^ 31
  | _, _ => True

instance (late p : ℕ) : (e : AgeEvent) → (s : Ageing) → Decidable (InTime late p e s)
  | .call _ (.get _), _ => inferInstanceAs (Decidable (_ → _))
  | .wait _, _ => .isTrue trivial
  | .call _ (.insert ..), _ => .isTrue trivial
  | .call _ (.changeaddr ..), _ => .isTrue trivial
  | .call _ .cleanup, _ => .isTrue trivial
  | .call _ (.deleteByDev _), _ => .isTrue trivial
  | .call _ (.put _), _ => .isTrue trivial

/-! ## The words -/

section Words

variable {now now₀ : Jiffies} {table table' : MeshFwdTable} {item : MeshFwdItem}

theorem timeBeforeEq_iff (a b : Jiffies) : timeBeforeEq a b = true ↔ (b - a).toNat < 2 ^ 31 := by
  rw [timeBeforeEq, decide_eq_true_iff, SerialOrder.ahead, BitVec.toInt_eq_toNat_cond]
  have hlt := (b - a).isLt
  split_ifs <;> omega

theorem hasExpired_iff (hdyn : item.isStatic = false) :
    table.hasExpired now item = true ↔ overdue now table item < 2 ^ 31 := by
  simp only [hasExpired, hdyn, Bool.not_false, Bool.true_and]
  exact timeBeforeEq_iff _ _

theorem overdue_clockAfter (elapsed : ℕ) :
    overdue (clockAfter now₀ elapsed) table item =
      (overdue now₀ table item + elapsed) % 2 ^ 32 := by
  have hshift : table.timeout (clockAfter now₀ elapsed) - item.ageingTimer =
      (table.timeout now₀ - item.ageingTimer) + BitVec.ofNat 32 elapsed := by
    simp only [timeout, clockAfter]
    split_ifs <;> bv_omega
  rw [overdue, hshift, BitVec.toNat_add, BitVec.toNat_ofNat, overdue, Nat.add_mod_mod]

end Words

/-! ## The item along the run -/

/-- The table has its settings from the start, and what stands at `p`, if anything, is the
item. -/
structure Unrefreshed (table₀ : MeshFwdTable) (p : ℕ) (item : MeshFwdItem)
    (table : MeshFwdTable) : Prop where
  ageingTime : table.ageingTime = table₀.ageingTime
  forwardDelay : table.forwardDelay = table₀.forwardDelay
  topologyChange : table.topologyChange = table₀.topologyChange
  same : ∀ i a, table.items.At i p a → a = item
  old : p < table.items.mem.next

section Kept

variable {table₀ table : MeshFwdTable} {p : ℕ} {item : MeshFwdItem}

theorem Unrefreshed.of_items (h : Unrefreshed table₀ p item table)
    {items : ChainTable meshFwdHashSize MeshFwdItem}
    (hat : ∀ i a, items.At i p a → a = item) (hnext : table.items.mem.next ≤ items.mem.next) :
    Unrefreshed table₀ p item { table with items } :=
  ⟨h.ageingTime, h.forwardDelay, h.topologyChange, hat, h.old.trans_le hnext⟩

theorem Unrefreshed.inserted {now : Jiffies} {room isLocal isStatic : Bool} {source : DevPtr}
    {addr : Mac} {table' : MeshFwdTable} (h : Unrefreshed table₀ p item table)
    (hother : table.hashFind addr ≠ some p)
    (hins : Inserted now room table source addr isLocal isStatic table') :
    Unrefreshed table₀ p item table' := by
  cases hins with
  | kept | full => exact h
  | replaced hfind =>
      refine h.of_items (fun i a hat => ?_) (le_refl _)
      obtain ⟨b, hb, rfl⟩ := ChainTable.at_edit.mp hat
      rw [if_neg]
      · exact h.same i b hb
      · rintro rfl
        exact hother hfind
  | added =>
      refine h.of_items (fun i a hat => ?_) (Nat.le_succ _)
      rcases ChainTable.at_insert.mp hat with ⟨_, hp, _⟩ | hat
      · exact absurd hp h.old.ne
      · exact h.same i a hat

theorem Unrefreshed.sweep (h : Unrefreshed table₀ p item table) (q : MeshFwdItem → Bool) :
    Unrefreshed table₀ p item { table with items := table.items.sweep q } := by
  refine h.of_items (fun i a hat => h.same i a (ChainTable.at_sweep.mp hat).1) ?_
  exact ChainTable.sweep_induction (P := fun t => table.items.mem.next ≤ t.mem.next)
    (fun t r _ ht => ht) (le_refl _)

theorem Unrefreshed.changeaddr {dev : DevPtr} {newaddr : Mac} (h : Unrefreshed table₀ p item table)
    (hother : table.items.search (fun item => item.dest == dev && item.isLocal) ≠ some p) :
    Unrefreshed table₀ p item (meshFwdDbChangeaddr table dev newaddr) := by
  rcases meshFwdDbChangeaddr_cases table dev newaddr with ⟨_, heq⟩ | ⟨r, hr, hsearch, heq⟩
  · rwa [heq]
  · rw [heq]
    refine h.of_items (fun i a hat => ?_) (le_refl _)
    rcases (ChainTable.at_relink hr).mp hat with ⟨rfl, _⟩ | ⟨_, hat⟩
    · exact absurd hsearch hother
    · exact h.same i a hat

theorem Unrefreshed.step {room : Bool} {now : Jiffies} {c : DbCall} {db db' : FwdDb}
    (h : Unrefreshed table₀ p item db.table) (hquiet : refreshes p db.table c = false)
    (hstep : FwdDb.step (⟨now, room⟩, c) db = some db') :
    Unrefreshed table₀ p item db'.table := by
  cases c with
  | insert source addr isLocal isStatic =>
      obtain rfl := Option.some.inj hstep
      exact h.inserted (by simpa [refreshes] using hquiet) (meshFwdDbInsert_cases ..)
  | changeaddr dev newaddr =>
      obtain rfl := Option.some.inj hstep
      exact h.changeaddr (by simpa [refreshes] using hquiet)
  | cleanup =>
      obtain rfl := Option.some.inj hstep
      exact h.sweep _
  | deleteByDev dev =>
      obtain rfl := Option.some.inj hstep
      exact h.sweep _
  | get addr =>
      obtain rfl := Option.some.inj hstep
      rcases meshFwdDbGet_cases now db.table addr with ⟨r, b, _, _, _, _, heq⟩ | ⟨heq, _⟩
      · simp only [heq]
        exact h.of_items (fun i a hat => h.same i a (ChainTable.at_hold.mp hat)) (le_refl _)
      · simpa only [heq] using h
  | put r =>
      simp only [FwdDb.step] at hstep
      split_ifs at hstep
      obtain ⟨table', hput, rfl⟩ := Option.map_eq_some_iff.mp hstep
      obtain ⟨items, hitems, rfl⟩ := Option.map_eq_some_iff.mp hput
      refine h.of_items (fun i a hat => h.same i a ((ChainTable.at_put hitems).mp hat)) ?_
      rw [(ChainTable.put_eq_some hitems).1]
      exact le_refl _

theorem Unrefreshed.overdue_eq (h : Unrefreshed table₀ p item table) (now : Jiffies) :
    overdue now table item = overdue now table₀ item := by
  simp only [overdue, timeout, h.ageingTime, h.forwardDelay, h.topologyChange]

theorem Unrefreshed.returns_get_iff (h : Unrefreshed table₀ p item table)
    (hdyn : item.isStatic = false) (now : Jiffies) (addr : Mac) :
    returns now p table (.get addr) = true ↔
      table.hashFind addr = some p ∧ ¬overdue now table₀ item < 2 ^ 31 := by
  rw [← h.overdue_eq, ← hasExpired_iff hdyn, Bool.not_eq_true]
  simp only [returns, beq_iff_eq, meshFwdDbGet]
  cases hfind : table.hashFind addr with
  | none => simp
  | some q =>
      obtain ⟨a, hat, _⟩ := at_of_hashFind hfind
      simp only [hat.2, Option.any_some, Option.some.injEq]
      by_cases hq : q = p
      · subst hq
        obtain rfl := h.same _ _ hat
        cases table.hasExpired now a <;> simp
      · cases table.hasExpired now a <;> simp [hq]

end Kept

/-! ## The run -/

/-- From a refusal on, the item is never returned exactly when all lookups that meet it are
in time. -/
theorem expired_forever_iff {now₀ : Jiffies} {table : MeshFwdTable} {held : List ℕ} {addr : Mac}
    {p : ℕ} {item : MeshFwdItem} (hfind : table.hashFind addr = some p)
    (hitem : table.items.read p = some item) (hrefused : (meshFwdDbGet now₀ table addr).1 = none)
    (events : List AgeEvent) :
    (∀ t, Visits (Ageing.step now₀ p) ⟨0, ⟨table, held⟩, false⟩ events t → t.returned = false) ↔
      Throughout (Ageing.step now₀ p) (InTime (overdue now₀ table item) p) events
        ⟨0, ⟨table, held⟩, false⟩ := by
  have hdyn : item.isStatic = false := by
    rcases meshFwdDbGet_cases now₀ table addr with ⟨_, _, _, _, _, _, hget⟩ | ⟨_, hexp⟩
    · simp [hget] at hrefused
    · exact not_isStatic_of_hasExpired (hexp p item hfind hitem)
  have hstart : Unrefreshed table p item table := by
    obtain ⟨a, hat, _⟩ := at_of_hashFind hfind
    obtain ⟨c, hc⟩ := table.items.alive _ _ hat.1
    refine ⟨rfl, rfl, rfl, fun i b hb => ?_, table.items.mem.fresh _ hc⟩
    exact Option.some.inj (hb.2.symm.trans hitem)
  refine visits_iff (G := fun s : Ageing => s.returned = false)
    (A := fun s : Ageing => Unrefreshed table p item s.db.table) ?_ events rfl hstart
  intro e s s' hgood haux hstep
  cases e with
  | wait ticks =>
      obtain rfl := Option.some.inj hstep
      exact ⟨iff_of_true hgood trivial, haux⟩
  | call room c =>
      simp only [Ageing.step] at hstep
      split_ifs at hstep with hquiet
      obtain ⟨db', hdb, rfl⟩ := Option.map_eq_some_iff.mp hstep
      have hkept := haux.step (by simpa using hquiet) hdb
      refine ⟨?_, hkept⟩
      simp only [hgood, Bool.false_or]
      cases c with
      | get a =>
          have hiff := haux.returns_get_iff hdyn (clockAfter now₀ s.elapsed) a
          rw [overdue_clockAfter] at hiff
          rw [← Bool.not_eq_true, hiff]
          simp [InTime]
      | _ => exact iff_of_true rfl trivial

/-- Station 7, heard at time 0 on port 1, when its 300 seconds are over. -/
def agedTable : MeshFwdTable := meshFwdDbInsert 0 true fwdInitTable 1 (stationMac 7) false false

/-- A lookup a second later is in time. -/
theorem expired_forever_soon : (meshFwdDbGet 30000 agedTable (stationMac 7)).1 = none ∧
    ∀ t, Visits (Ageing.step 30000 0) ⟨0, ⟨agedTable, []⟩, false⟩
      [.wait 100, .call true (.get (stationMac 7))] t → t.returned = false := by
  have hfind : agedTable.hashFind (stationMac 7) = some 0 := by decide +kernel
  have hitem : agedTable.items.read 0 = some (newItem 0 1 (stationMac 7) false false) := by
    decide +kernel
  have hrefused : (meshFwdDbGet 30000 agedTable (stationMac 7)).1 = none := by decide +kernel
  exact ⟨hrefused, (expired_forever_iff hfind hitem hrefused _).mpr (by decide +kernel)⟩

/-- After half a turn of the counter the refused entry is returned. -/
theorem expired_returns :
    (meshFwdDbGet 30000 agedTable (stationMac 7)).1 = none ∧
    ∃ t, Visits (Ageing.step 30000 0) ⟨0, ⟨agedTable, []⟩, false⟩
      [.wait (2 ^ 31), .call true (.get (stationMac 7))] t ∧ t.returned = true := by
  refine ⟨by decide +kernel, exists_visits (by decide +kernel)⟩

end Mesh
end WirelessMesh
