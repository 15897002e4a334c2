import WirelessMesh.Kernel
import WirelessMesh.Lib.ChainInvariants

/-!
# The forwarding table of the mesh layer

`MESH_FWD_TABLE` maps MAC addresses to mesh devices. It has 256 chains of items;
an item is found on the chain of its address, is refreshed when a frame from that
address arrives, and counts its readers. Times are `jiffies` of a 32-bit kernel.
Allocation may fail: `room` says whether it succeeds.
-/

namespace WirelessMesh
namespace Mesh

abbrev Mac := Vector (BitVec 8) 6

/-- The address of a `MESH_DEVICE`. -/
abbrev DevPtr := ℕ

def isMulticast (mac : Mac) : Bool := mac.get 0 &&& 1 != 0

def meshFwdHashSize : ℕ := 1 <<< 8

instance : NeZero meshFwdHashSize := ⟨by decide⟩

def macHash (mac : Mac) : Fin meshFwdHashSize :=
  let x := (mac.get 0).toNat
  let x := (x <<< 2) ^^^ (mac.get 1).toNat
  let x := (x <<< 2) ^^^ (mac.get 2).toNat
  let x := (x <<< 2) ^^^ (mac.get 3).toNat
  let x := (x <<< 2) ^^^ (mac.get 4).toNat
  let x := (x <<< 2) ^^^ (mac.get 5).toNat
  let x := x ^^^ (x >>> 8)
  Fin.ofNat meshFwdHashSize (x &&& (meshFwdHashSize - 1))

/-- `MESH_FWD_ITEM` without its links and its use count, which the chains keep. -/
structure MeshFwdItem where
  addr : Mac
  dest : DevPtr
  ageingTimer : Jiffies
  isLocal : Bool
  isStatic : Bool
deriving DecidableEq

structure MeshFwdTable where
  items : ChainTable meshFwdHashSize MeshFwdItem
  ageingTime : Jiffies
  forwardDelay : Jiffies
  topologyChange : Bool

/-- A new table, as `swjtu_fwd_init_table` makes it. -/
def fwdInitTable : MeshFwdTable where
  items := ChainTable.empty
  ageingTime := 300 * hz
  forwardDelay := 15 * hz
  topologyChange := false

namespace MeshFwdTable

def timeout (now : Jiffies) (table : MeshFwdTable) : Jiffies :=
  if table.topologyChange then now - table.forwardDelay else now - table.ageingTime

def hasExpired (now : Jiffies) (table : MeshFwdTable) (item : MeshFwdItem) : Bool :=
  !item.isStatic && timeBeforeEq item.ageingTimer (table.timeout now)

def hashFind (table : MeshFwdTable) (addr : Mac) : Option ℕ :=
  table.items.lookup macHash MeshFwdItem.addr addr

def Linked (table : MeshFwdTable) (p : ℕ) (item : MeshFwdItem) : Prop :=
  ∃ i, table.items.At i p item

end MeshFwdTable

open MeshFwdTable

/-- Drop a reference; `none` when that would free an item still in use. -/
def meshFwdDbPut (table : MeshFwdTable) (p : ℕ) : Option MeshFwdTable :=
  (table.items.put p).map fun items => { table with items }

def meshFwdDbChangeaddr (table : MeshFwdTable) (dev : DevPtr) (newaddr : Mac) : MeshFwdTable :=
  match h : table.items.search fun item => item.dest == dev && item.isLocal with
  | none => table
  | some p =>
      { table with
        items := table.items.relink p (macHash newaddr) (fun item => { item with addr := newaddr })
          (ChainTable.linked_of_search h) }

def meshFwdDbCleanup (now : Jiffies) (table : MeshFwdTable) : MeshFwdTable :=
  let timeout := table.timeout now
  { table with
    items := table.items.sweep fun item =>
      !item.isStatic && timeBeforeEq item.ageingTimer timeout }

def meshFwdDbDeleteByDev (table : MeshFwdTable) (dev : DevPtr) : MeshFwdTable :=
  { table with items := table.items.sweep fun item => item.dest == dev }

/-- The unexpired item with the address, with a reference to it. The search ends at
the first item that has the address, expired or not. -/
def meshFwdDbGet (now : Jiffies) (table : MeshFwdTable) (addr : Mac) : Option ℕ × MeshFwdTable :=
  match table.hashFind addr with
  | none => (none, table)
  | some p =>
      if (table.items.read p).any fun item => !table.hasExpired now item then
        (some p, { table with items := table.items.hold p })
      else (none, table)

def possiblyReplace (now : Jiffies) (source : DevPtr) (isLocal : Bool) (item : MeshFwdItem) :
    MeshFwdItem :=
  if !item.isStatic || isLocal then
    { item with dest := source, isLocal := isLocal, isStatic := isLocal, ageingTimer := now }
  else item

def newItem (now : Jiffies) (source : DevPtr) (addr : Mac) (isLocal isStatic : Bool) :
    MeshFwdItem :=
  { addr := addr, dest := source, isLocal := isLocal, isStatic := isStatic, ageingTimer := now }

def meshFwdDbInsert (now : Jiffies) (room : Bool) (table : MeshFwdTable) (source : DevPtr)
    (addr : Mac) (isLocal isStatic : Bool) : MeshFwdTable :=
  match table.hashFind addr with
  | some p =>
      if (table.items.read p).any MeshFwdItem.isLocal then table
      else { table with items := table.items.edit p (possiblyReplace now source isLocal) }
  | none =>
      if room then
        { table with
          items := table.items.insert (macHash addr) (newItem now source addr isLocal isStatic) }
      else table

/-! ## What the operations do -/

section Cases

variable {now : Jiffies} {room isLocal isStatic : Bool} {table : MeshFwdTable} {source : DevPtr}
  {addr : Mac} {p : ℕ}

theorem MeshFwdTable.at_of_hashFind (h : table.hashFind addr = some p) :
    ∃ item, table.items.At (macHash addr) p item ∧ item.addr = addr :=
  ChainTable.at_of_lookup h

inductive Inserted (now : Jiffies) (room : Bool) (table : MeshFwdTable) (source : DevPtr)
    (addr : Mac) (isLocal isStatic : Bool) : MeshFwdTable → Prop
  | kept {p : ℕ} {item : MeshFwdItem} (hfind : table.hashFind addr = some p)
      (hat : table.items.At (macHash addr) p item) (haddr : item.addr = addr)
      (hlocal : item.isLocal = true) :
      Inserted now room table source addr isLocal isStatic table
  | replaced {p : ℕ} {item : MeshFwdItem} (hfind : table.hashFind addr = some p)
      (hat : table.items.At (macHash addr) p item) (haddr : item.addr = addr)
      (hlocal : item.isLocal = false) :
      Inserted now room table source addr isLocal isStatic
        { table with items := table.items.edit p (possiblyReplace now source isLocal) }
  | added (hfind : table.hashFind addr = none) (hroom : room = true) :
      Inserted now room table source addr isLocal isStatic
        { table with
          items := table.items.insert (macHash addr) (newItem now source addr isLocal isStatic) }
  | full (hfind : table.hashFind addr = none) (hroom : room = false) :
      Inserted now room table source addr isLocal isStatic table

theorem meshFwdDbInsert_cases (now : Jiffies) (room : Bool) (table : MeshFwdTable)
    (source : DevPtr) (addr : Mac) (isLocal isStatic : Bool) :
    Inserted now room table source addr isLocal isStatic
      (meshFwdDbInsert now room table source addr isLocal isStatic) := by
  unfold meshFwdDbInsert
  cases hfind : table.hashFind addr with
  | none =>
      dsimp only
      split_ifs with hroom
      · exact .added hfind hroom
      · exact .full hfind (by simpa using hroom)
  | some p =>
      obtain ⟨item, hat, haddr⟩ := at_of_hashFind hfind
      simp only [hat.2, Option.any_some]
      split_ifs with hlocal
      · exact .kept hfind hat haddr hlocal
      · exact .replaced hfind hat haddr (by simpa using hlocal)

@[simp] theorem possiblyReplace_addr (item : MeshFwdItem) :
    (possiblyReplace now source isLocal item).addr = item.addr := by
  unfold possiblyReplace
  split_ifs <;> rfl

theorem not_isStatic_of_hasExpired {item : MeshFwdItem} (h : table.hasExpired now item = true) :
    item.isStatic = false := by
  simp only [hasExpired, Bool.and_eq_true, Bool.not_eq_true'] at h
  exact h.1

theorem meshFwdDbPut_hold {table : MeshFwdTable} {p : ℕ} (h : table.items.Linked p) :
    meshFwdDbPut { table with items := table.items.hold p } p = some table := by
  simp [meshFwdDbPut, ChainTable.put_hold h]

theorem meshFwdDbGet_cases (now : Jiffies) (table : MeshFwdTable) (addr : Mac) :
    (∃ p item, table.hashFind addr = some p ∧ table.items.At (macHash addr) p item ∧
      item.addr = addr ∧ table.hasExpired now item = false ∧
      meshFwdDbGet now table addr = (some p, { table with items := table.items.hold p })) ∨
    (meshFwdDbGet now table addr = (none, table) ∧
      ∀ p item, table.hashFind addr = some p → table.items.read p = some item →
        table.hasExpired now item = true) := by
  unfold meshFwdDbGet
  cases hfind : table.hashFind addr with
  | none => exact .inr ⟨rfl, by simp⟩
  | some p =>
      obtain ⟨item, hat, haddr⟩ := at_of_hashFind hfind
      simp only [hat.2, Option.any_some]
      cases hexp : table.hasExpired now item with
      | false => exact .inl ⟨p, item, rfl, hat, haddr, hexp, by simp⟩
      | true =>
          refine .inr ⟨by simp, ?_⟩
          intro q other hq hother
          obtain rfl := Option.some.inj hq
          obtain rfl := Option.some.inj (hat.2.symm.trans hother)
          exact hexp

theorem meshFwdDbChangeaddr_cases (table : MeshFwdTable) (dev : DevPtr) (newaddr : Mac) :
    (table.items.search (fun item => item.dest == dev && item.isLocal) = none ∧
      meshFwdDbChangeaddr table dev newaddr = table) ∨
    ∃ p, ∃ hp : table.items.Linked p,
      table.items.search (fun item => item.dest == dev && item.isLocal) = some p ∧
      meshFwdDbChangeaddr table dev newaddr = { table with
        items := table.items.relink p (macHash newaddr)
          (fun item => { item with addr := newaddr }) hp } := by
  unfold meshFwdDbChangeaddr
  split
  · exact .inl ⟨by assumption, rfl⟩
  · rename_i p hp
    exact .inr ⟨p, ChainTable.linked_of_search hp, hp, rfl⟩

end Cases

/-! ## Entries -/

namespace MeshFwdTable

/-- The entry of an address is the first item with that address on its chain, the one every
operation of the table works on. -/
def entry (table : MeshFwdTable) (addr : Mac) : Option MeshFwdItem :=
  (table.hashFind addr).bind table.items.read

def liveEntry (now : Jiffies) (table : MeshFwdTable) (addr : Mac) : Option MeshFwdItem :=
  (table.entry addr).filter fun item => !table.hasExpired now item

end MeshFwdTable

section Learn

variable {now : Jiffies} {room isLocal isStatic : Bool} {table : MeshFwdTable} {source : DevPtr}
  {addr other : Mac} {p : ℕ} {item : MeshFwdItem}

theorem entry_of_hashFind (hfind : table.hashFind addr = some p)
    (hat : table.items.At (macHash addr) p item) : table.entry addr = some item := by
  rw [entry, hfind, Option.bind_some, hat.2]

theorem entry_eq_none (hfind : table.hashFind addr = none) : table.entry addr = none := by
  rw [entry, hfind, Option.bind_none]

def entryAfter (now : Jiffies) (room : Bool) (source : DevPtr) (addr : Mac)
    (isLocal isStatic : Bool) : Option MeshFwdItem → Option MeshFwdItem
  | some item => some (if item.isLocal then item else possiblyReplace now source isLocal item)
  | none => if room then some (newItem now source addr isLocal isStatic) else none

theorem entry_edit {f : MeshFwdItem → MeshFwdItem} (hf : ∀ item, (f item).addr = item.addr)
    (hfind : table.hashFind addr = some p) (other : Mac) :
    ({ table with items := table.items.edit p f } : MeshFwdTable).entry other =
      if other = addr then (table.entry addr).map f else table.entry other := by
  have hsame : ({ table with items := table.items.edit p f } : MeshFwdTable).hashFind other =
      table.hashFind other := ChainTable.lookup_edit hf
  unfold entry
  rw [hsame]
  by_cases hother : other = addr
  · subst hother
    rw [if_pos rfl, hfind]
    simp
  · rw [if_neg hother]
    cases hq : table.hashFind other with
    | none => rfl
    | some q =>
        obtain ⟨item, hat, haddr⟩ := at_of_hashFind hfind
        obtain ⟨item', hat', haddr'⟩ := at_of_hashFind hq
        have hne : q ≠ p := by
          rintro rfl
          obtain rfl := (hat.eq hat').2
          exact hother (haddr'.symm.trans haddr)
        simp [hne]

theorem entry_insert (new : MeshFwdItem) (other : Mac) :
    ({ table with items := table.items.insert (macHash new.addr) new } : MeshFwdTable).entry other =
      if other = new.addr then some new else table.entry other := by
  have hfind : ({ table with items := table.items.insert (macHash new.addr) new } :
      MeshFwdTable).hashFind other =
        if macHash other = macHash new.addr ∧ new.addr = other then some table.items.mem.next
        else table.hashFind other := ChainTable.lookup_insert
  unfold entry
  rw [hfind]
  by_cases hother : other = new.addr
  · subst hother
    simp
  · rw [if_neg fun h => hother h.2.symm, if_neg hother]
    cases hq : table.hashFind other with
    | none => rfl
    | some q =>
        obtain ⟨item, hat, _⟩ := at_of_hashFind hq
        have hne : q ≠ table.items.mem.next := by
          rintro rfl
          exact ChainTable.not_at_next hat
        simp [hne]

theorem entry_meshFwdDbInsert (now : Jiffies) (room : Bool) (table : MeshFwdTable)
    (source : DevPtr) (addr : Mac) (isLocal isStatic : Bool) (other : Mac) :
    (meshFwdDbInsert now room table source addr isLocal isStatic).entry other =
      if other = addr then entryAfter now room source addr isLocal isStatic (table.entry addr)
      else table.entry other := by
  have hcases := meshFwdDbInsert_cases now room table source addr isLocal isStatic
  generalize meshFwdDbInsert now room table source addr isLocal isStatic = table' at hcases
  cases hcases with
  | kept hfind hat haddr hlocal =>
      rw [entry_of_hashFind hfind hat, entryAfter, if_pos hlocal]
      split_ifs with hother
      · rw [hother, entry_of_hashFind hfind hat]
      · rfl
  | replaced hfind hat haddr hlocal =>
      rw [entry_edit (fun item => possiblyReplace_addr item) hfind, entry_of_hashFind hfind hat,
        Option.map_some]
      simp [entryAfter, hlocal]
  | added hfind hroom =>
      rw [entry_eq_none hfind, entryAfter, if_pos hroom]
      exact entry_insert (newItem now source addr isLocal isStatic) other
  | full hfind hroom =>
      rw [entry_eq_none hfind]
      split_ifs with hother
      · rw [hother, entry_eq_none hfind]
        simp [entryAfter, hroom]
      · rfl

/-- A lookup finds the entry that has not expired, and leaves the table alone. -/
theorem meshFwdDbGet_entry (now : Jiffies) (table : MeshFwdTable) (addr : Mac) :
    (∃ p item, meshFwdDbGet now table addr =
        (some p, { table with items := table.items.hold p }) ∧
      table.items.At (macHash addr) p item ∧ table.liveEntry now addr = some item) ∨
    (meshFwdDbGet now table addr = (none, table) ∧ table.liveEntry now addr = none) := by
  rcases meshFwdDbGet_cases now table addr with ⟨p, item, hfind, hat, _, hlive, hget⟩ | ⟨hget, hexp⟩
  · refine .inl ⟨p, item, hget, hat, ?_⟩
    simp [liveEntry, entry_of_hashFind hfind hat, hlive]
  · refine .inr ⟨hget, ?_⟩
    cases hfind : table.hashFind addr with
    | none => simp [liveEntry, entry_eq_none hfind]
    | some p =>
        obtain ⟨item, hat, _⟩ := at_of_hashFind hfind
        simp [liveEntry, entry_of_hashFind hfind hat, hexp p item hfind hat.2]

end Learn

end Mesh
end WirelessMesh
