import WirelessMesh.Mesh.FwdTable
import WirelessMesh.Lib.Runs

/-!
# What holds of the forwarding table

A table is driven by any sequence of calls, each at its own time and with its own
luck in allocation; a reader gives back each reference it was handed. The counts
stay right whatever is called. The chains stay those of the addresses, each
address once, and local items stay static, unless a call re-keys an item to an
address in use or enters a local item that is not static: a run keeps the table in
order exactly when it does neither.
-/

namespace WirelessMesh
namespace Mesh

open ChainTable (Keyed)
open MeshFwdTable Machine

structure TableOk (table : MeshFwdTable) : Prop where
  homed : ∀ {i p item}, table.items.At i p item → macHash item.addr = i
  unique : ∀ {p q item other}, table.Linked p item → table.Linked q other →
    item.addr = other.addr → p = q
  localStatic : ∀ {p item}, table.Linked p item → item.isLocal = true → item.isStatic = true
  found : ∀ {now p item}, table.Linked p item → table.hasExpired now item = false →
    (meshFwdDbGet now table item.addr).1 = some p

def LocalStatic (table : MeshFwdTable) : Prop :=
  ∀ p item, table.Linked p item → item.isLocal = true → item.isStatic = true

theorem tableOk_iff {table : MeshFwdTable} :
    TableOk table ↔ Keyed macHash MeshFwdItem.addr table.items ∧ LocalStatic table := by
  constructor
  · intro h
    refine ⟨⟨h.homed, ?_⟩, fun _ _ => h.localStatic⟩
    intro i j p q item other hp hq haddr
    exact h.unique ⟨i, hp⟩ ⟨j, hq⟩ haddr
  · rintro ⟨hkeyed, hlocal⟩
    refine ⟨hkeyed.homed, ?_, hlocal _ _, ?_⟩
    · rintro p q item other ⟨i, hp⟩ ⟨j, hq⟩ haddr
      exact hkeyed.distinct hp hq haddr
    · rintro now p item ⟨i, hp⟩ hexp
      have hfind : table.hashFind item.addr = some p := hkeyed.lookup_eq hp rfl
      simp [meshFwdDbGet, hfind, hp.2, hexp]

/-! ## Calls -/

structure Env where
  now : Jiffies
  room : Bool

inductive DbCall where
  | insert (source : DevPtr) (addr : Mac) (isLocal isStatic : Bool)
  | changeaddr (dev : DevPtr) (newaddr : Mac)
  | cleanup
  | deleteByDev (dev : DevPtr)
  | get (addr : Mac)
  | put (p : ℕ)

/-- A table and the pointers that were handed out and not yet given back. -/
structure FwdDb where
  table : MeshFwdTable
  held : List ℕ

def FwdDb.start : FwdDb := ⟨fwdInitTable, []⟩

def FwdDb.step : Env × DbCall → FwdDb → Option FwdDb
  | (env, .insert source addr isLocal isStatic), db =>
      some { db with
        table := meshFwdDbInsert env.now env.room db.table source addr isLocal isStatic }
  | (_, .changeaddr dev newaddr), db =>
      some { db with table := meshFwdDbChangeaddr db.table dev newaddr }
  | (env, .cleanup), db => some { db with table := meshFwdDbCleanup env.now db.table }
  | (_, .deleteByDev dev), db => some { db with table := meshFwdDbDeleteByDev db.table dev }
  | (env, .get addr), db =>
      let got := meshFwdDbGet env.now db.table addr
      some ⟨got.2, got.1.toList ++ db.held⟩
  | (_, .put p), db =>
      if p ∈ db.held then
        (meshFwdDbPut db.table p).map fun table => ⟨table, db.held.erase p⟩
      else none

/-! ## References -/

theorem balanced_inserted {now : Jiffies} {room isLocal isStatic : Bool}
    {table table' : MeshFwdTable} {source : DevPtr} {addr : Mac} {held : List ℕ}
    (h : ChainTable.Balanced table.items held)
    (hins : Inserted now room table source addr isLocal isStatic table') :
    ChainTable.Balanced table'.items held := by
  cases hins with
  | kept => exact h
  | replaced => exact h.edit
  | added => exact h.insert
  | full => exact h

/-- Whatever is called, each count is the number of references, and a reader can give
back what it holds. -/
theorem balanced_step {call : Env × DbCall} {db db' : FwdDb}
    (h : ChainTable.Balanced db.table.items db.held) (hstep : FwdDb.step call db = some db') :
    ChainTable.Balanced db'.table.items db'.held := by
  obtain ⟨env, call⟩ := call
  cases call with
  | insert source addr isLocal isStatic =>
      obtain rfl := Option.some.inj hstep
      exact balanced_inserted h (meshFwdDbInsert_cases ..)
  | changeaddr dev newaddr =>
      obtain rfl := Option.some.inj hstep
      rcases meshFwdDbChangeaddr_cases db.table dev newaddr with ⟨_, heq⟩ | ⟨p, hp, _, heq⟩
      · simpa only [heq] using h
      · simpa only [heq] using h.relink
  | cleanup =>
      obtain rfl := Option.some.inj hstep
      exact h.sweep _
  | deleteByDev dev =>
      obtain rfl := Option.some.inj hstep
      exact h.sweep _
  | get addr =>
      obtain rfl := Option.some.inj hstep
      rcases meshFwdDbGet_cases env.now db.table addr with
        ⟨p, item, _, hat, _, _, heq⟩ | ⟨heq, _⟩
      · simpa [heq] using h.hold hat.linked
      · simpa [heq] using h
  | put p =>
      simp only [FwdDb.step] at hstep
      split_ifs at hstep with hp
      obtain ⟨items, hput, hbal⟩ := h.put hp
      simp only [meshFwdDbPut, hput, Option.map_some] at hstep
      obtain rfl := Option.some.inj hstep
      exact hbal

/-- Over every run of calls an item is in memory exactly while its chain or a reader refers to
it, and its use count is the number of these references. -/
theorem balanced_visits {calls : List (Env × DbCall)} {db : FwdDb}
    (h : Visits FwdDb.step .start calls db) : ChainTable.Balanced db.table.items db.held := by
  refine h.invariant (P := fun db => ChainTable.Balanced db.table.items db.held) balanced_step ?_
  exact ChainTable.Balanced.empty

/-! ## Order -/

/-- The calls that keep a table in order: a new local item is static, and the address
that a local item changes to is carried by no other item. -/
def Orderly : Env × DbCall → FwdDb → Prop
  | (env, .insert _ addr isLocal isStatic), db =>
      db.table.hashFind addr = none → env.room = true → isLocal = true → isStatic = true
  | (_, .changeaddr dev newaddr), db =>
      ∀ p, db.table.items.search (fun item => item.dest == dev && item.isLocal) = some p →
        ∀ q item, db.table.Linked q item → item.addr = newaddr → q = p
  | _, _ => True

section Step

variable {table table' : MeshFwdTable} {now : Jiffies} {room isLocal isStatic : Bool}
  {source dev : DevPtr} {addr newaddr : Mac}

theorem LocalStatic.of_linked (h : LocalStatic table)
    (hsub : ∀ {p item}, table'.Linked p item → table.Linked p item) : LocalStatic table' :=
  fun p item hp => h p item (hsub hp)

theorem possiblyReplace_localStatic {item : MeshFwdItem}
    (h : item.isLocal = true → item.isStatic = true)
    (hl : (possiblyReplace now source isLocal item).isLocal = true) :
    (possiblyReplace now source isLocal item).isStatic = true := by
  unfold possiblyReplace at hl ⊢
  split_ifs at hl ⊢
  · exact hl
  · exact h hl

theorem tableOk_inserted_iff (h : TableOk table)
    (hins : Inserted now room table source addr isLocal isStatic table') :
    TableOk table' ↔
      (table.hashFind addr = none → room = true → isLocal = true → isStatic = true) := by
  obtain ⟨hkeyed, hlocal⟩ := tableOk_iff.mp h
  cases hins with
  | kept hfind => exact iff_of_true h (by simp [hfind])
  | replaced hfind =>
      refine iff_of_true (tableOk_iff.mpr ⟨hkeyed.edit (by simp), ?_⟩) (by simp [hfind])
      rintro q item ⟨i, hq⟩
      obtain ⟨other, hother, rfl⟩ := ChainTable.at_edit.mp hq
      split_ifs
      · exact possiblyReplace_localStatic (hlocal _ _ ⟨i, hother⟩)
      · exact hlocal _ _ ⟨i, hother⟩
  | added hfind hroom =>
      have hkeyed' : Keyed macHash MeshFwdItem.addr
          (table.items.insert (macHash addr) (newItem now source addr isLocal isStatic)) :=
        hkeyed.insert (a := newItem now source addr isLocal isStatic) hfind
      constructor
      · intro h' _ _
        exact h'.localStatic ⟨macHash addr, ChainTable.at_insert.mpr (.inl ⟨rfl, rfl, rfl⟩)⟩
      · intro hstatic
        refine tableOk_iff.mpr ⟨hkeyed', ?_⟩
        rintro q item ⟨i, hq⟩
        rcases ChainTable.at_insert.mp hq with ⟨_, _, rfl⟩ | hq
        · exact hstatic hfind hroom
        · exact hlocal _ _ ⟨i, hq⟩
  | full hfind hroom => exact iff_of_true h (by simp [hroom])

theorem tableOk_changeaddr_iff (h : TableOk table) :
    TableOk (meshFwdDbChangeaddr table dev newaddr) ↔
      ∀ p, table.items.search (fun item => item.dest == dev && item.isLocal) = some p →
        ∀ q item, table.Linked q item → item.addr = newaddr → q = p := by
  obtain ⟨hkeyed, hlocal⟩ := tableOk_iff.mp h
  rcases meshFwdDbChangeaddr_cases table dev newaddr with ⟨hnone, heq⟩ | ⟨p, hp, hfind, heq⟩
  · rw [heq]
    exact iff_of_true h (by simp [hnone])
  · have hlocal' : LocalStatic (meshFwdDbChangeaddr table dev newaddr) := by
      rw [heq]
      rintro q item ⟨i, hq⟩ hl
      rcases (ChainTable.at_relink hp).mp hq with ⟨rfl, _, other, hother, rfl⟩ | ⟨_, hq⟩
      · obtain ⟨j, hj⟩ := hp
        exact hlocal q other ⟨j, hj, hother⟩ hl
      · exact hlocal q item ⟨i, hq⟩ hl
    have hiff := hkeyed.relink_iff hp
      (f := fun item => { item with addr := newaddr }) (k := newaddr) (fun _ => rfl)
    rw [tableOk_iff, and_iff_left hlocal', heq, hiff]
    constructor
    · rintro hother r hr q item ⟨i, hq⟩ haddr
      obtain rfl := Option.some.inj (hfind.symm.trans hr)
      exact hother hq haddr
    · intro hother j q item hq haddr
      exact hother p hfind q item ⟨j, hq⟩ haddr

theorem tableOk_sweep (h : TableOk table) (q : MeshFwdItem → Bool) :
    TableOk { table with items := table.items.sweep q } := by
  obtain ⟨hkeyed, hlocal⟩ := tableOk_iff.mp h
  refine tableOk_iff.mpr ⟨hkeyed.sweep q, hlocal.of_linked ?_⟩
  rintro p item ⟨i, hp⟩
  exact ⟨i, (ChainTable.at_sweep.mp hp).1⟩

theorem TableOk.of_at (h : TableOk table)
    (hat : ∀ {i p item}, table'.items.At i p item ↔ table.items.At i p item) : TableOk table' := by
  obtain ⟨hkeyed, hlocal⟩ := tableOk_iff.mp h
  refine tableOk_iff.mpr ⟨hkeyed.of_at fun hp => ⟨_, hat.mp hp, rfl⟩, hlocal.of_linked ?_⟩
  rintro p item ⟨i, hp⟩
  exact ⟨i, hat.mp hp⟩

end Step

theorem tableOk_step_iff {call : Env × DbCall} {db db' : FwdDb} (h : TableOk db.table)
    (hstep : FwdDb.step call db = some db') : TableOk db'.table ↔ Orderly call db := by
  obtain ⟨env, call⟩ := call
  cases call with
  | insert source addr isLocal isStatic =>
      obtain rfl := Option.some.inj hstep
      exact tableOk_inserted_iff h (meshFwdDbInsert_cases ..)
  | changeaddr dev newaddr =>
      obtain rfl := Option.some.inj hstep
      exact tableOk_changeaddr_iff h
  | cleanup =>
      obtain rfl := Option.some.inj hstep
      exact iff_of_true (tableOk_sweep h _) trivial
  | deleteByDev dev =>
      obtain rfl := Option.some.inj hstep
      exact iff_of_true (tableOk_sweep h _) trivial
  | get addr =>
      obtain rfl := Option.some.inj hstep
      refine iff_of_true ?_ trivial
      rcases meshFwdDbGet_cases env.now db.table addr with
        ⟨p, item, _, _, _, _, heq⟩ | ⟨heq, _⟩
      · simp only [heq]
        exact h.of_at ChainTable.at_hold
      · simpa only [heq] using h
  | put p =>
      simp only [FwdDb.step] at hstep
      split_ifs at hstep
      obtain ⟨table', hput, rfl⟩ := Option.map_eq_some_iff.mp hstep
      obtain ⟨items, hitems, rfl⟩ := Option.map_eq_some_iff.mp hput
      exact iff_of_true (h.of_at (ChainTable.at_put hitems)) trivial

theorem tableOk_start : TableOk fwdInitTable := by
  refine tableOk_iff.mpr ⟨Keyed.empty, ?_⟩
  rintro p item ⟨i, hp, _⟩
  simp [fwdInitTable, ChainTable.empty] at hp

/-- From an empty table, a run of calls keeps the table in order exactly when all
its calls are orderly. -/
theorem tableOk_iff_orderly (calls : List (Env × DbCall)) :
    (∀ db, Visits FwdDb.step .start calls db → TableOk db.table) ↔
      Throughout FwdDb.step Orderly calls .start := by
  refine visits_iff (A := fun _ => True) ?_ calls tableOk_start trivial
  intro call db db' h _ hstep
  exact ⟨tableOk_step_iff h hstep, trivial⟩

def stationMac (last : BitVec 8) : Mac := #v[0x02, 0, 0, 0, 0, last]

/-- Port 1 enters its address, the address of a station is learnt on port 2, and the
address of port 1 changes to that of the station. -/
def takeover : List (Env × DbCall) :=
  [(⟨0, true⟩, .insert 1 (stationMac 1) true true),
   (⟨0, true⟩, .insert 2 (stationMac 7) false false),
   (⟨0, true⟩, .changeaddr 1 (stationMac 7))]

theorem takeover_duplicates :
    ∃ db, Visits FwdDb.step .start takeover db ∧ ¬TableOk db.table := by
  have hrun : (finish FwdDb.step takeover .start).any (fun db =>
      decide (db.table.items.chain (macHash (stationMac 7)) = [0, 1] ∧
        (db.table.items.read 0).map MeshFwdItem.addr = some (stationMac 7) ∧
        (db.table.items.read 1).map MeshFwdItem.addr = some (stationMac 7))) = true := by
    decide +kernel
  obtain ⟨db, hv, hchain, hfirst, hsecond⟩ := exists_visits hrun
  refine ⟨db, hv, fun hok => ?_⟩
  obtain ⟨item, hitem, haddr⟩ := Option.map_eq_some_iff.mp hfirst
  obtain ⟨other, hother, haddr'⟩ := Option.map_eq_some_iff.mp hsecond
  have hzero : db.table.Linked 0 item := ⟨_, by rw [hchain]; simp, hitem⟩
  have hone : db.table.Linked 1 other := ⟨_, by rw [hchain]; simp, hother⟩
  exact absurd (hok.unique hzero hone (haddr.trans haddr'.symm)) (by decide)

/-- A station is learnt on port 2 and looked up, and the port goes while the reader has the
item. -/
def heldOver : List (Env × DbCall) :=
  [(⟨0, true⟩, .insert 2 (stationMac 7) false false), (⟨0, true⟩, .get (stationMac 7)),
   (⟨0, true⟩, .deleteByDev 2)]

theorem balanced_visits_heldOver :
    ∃ db, Visits FwdDb.step .start heldOver db ∧ db.held = [0] ∧
      ChainTable.Balanced db.table.items db.held := by
  have hrun :
      (finish FwdDb.step heldOver .start).any (fun db => decide (db.held = [0])) = true := by
    decide +kernel
  obtain ⟨db, hv, hheld⟩ := exists_visits hrun
  exact ⟨db, hv, hheld, balanced_visits hv⟩

end Mesh
end WirelessMesh
