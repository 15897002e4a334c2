import WirelessMesh.Mesh.Manager

/-!
# Static entries through the FWD ioctl

`__fwd_ctrl` adds and removes entries of the forwarding table by hand. It looks the
address up first, which takes a reference, and gives that reference back in one
branch only. What a user may expect of an answer holds exactly when the port is
unknown, or the lookup finds nothing and, for an addition, no item with the address
is linked and there is memory for one.
-/

namespace WirelessMesh
namespace Mesh

open MeshFwdTable

/-- `fwd_cmd_t`; `other` is a value outside the enumeration. -/
inductive FwdCmd where
  | add
  | delete
  | enable
  | disable
  | other
deriving DecidableEq

structure FwdRequest where
  cmd : FwdCmd
  addr : Mac
  devName : String

/-- `__fwd_ctrl`: the answer and the manager afterwards. -/
def fwdCtrl (env : Env) (mgr : MeshMgr) (request : FwdRequest) : Option (ℤ × MeshMgr) :=
  match getPortByName mgr request.devName with
  | none => some (-enodev, mgr)
  | some dev =>
      let got := meshFwdDbGet env.now mgr.fwdTable request.addr
      match request.cmd, got.1 with
      | .add, some _ => some (-eexist, { mgr with fwdTable := got.2 })
      | .add, none =>
          some (0, { mgr with
            fwdTable := meshFwdDbInsert env.now env.room got.2 dev request.addr false true })
      | .delete, some p =>
          (meshFwdDbPut got.2 p).map fun table => (0, { mgr with fwdTable := table })
      | .enable, some _ => some (0, { mgr with fwdTable := got.2 })
      | .disable, some _ => some (0, { mgr with fwdTable := got.2 })
      | _, _ => some (-enoent, { mgr with fwdTable := got.2 })

/-! ## Contract -/

def cleanups (table : MeshFwdTable) (times : List Jiffies) : MeshFwdTable :=
  times.foldl (fun table now => meshFwdDbCleanup now table) table

/-- What an answer promises. -/
structure CtrlContract (env : Env) (before : MeshMgr) (request : FwdRequest) (res : ℤ)
    (after : MeshMgr) : Prop where
  added : request.cmd = .add → res = 0 → ∃ dev p item,
    getPortByName before request.devName = some dev ∧ item.addr = request.addr ∧
    item.dest = dev ∧ item.isStatic = true ∧
    ∀ (times : List Jiffies) (now : Jiffies),
      (cleanups after.fwdTable times).Linked p item ∧
      (meshFwdDbGet now (cleanups after.fwdTable times) request.addr).1 = some p
  deleted : request.cmd = .delete → res = 0 →
    (meshFwdDbGet env.now after.fwdTable request.addr).1 = none
  counts : ∀ p, before.fwdTable.items.Linked p → after.fwdTable.items.Linked p →
    after.fwdTable.items.useCount p = before.fwdTable.items.useCount p

def CtrlClean (env : Env) (mgr : MeshMgr) (request : FwdRequest) : Prop :=
  getPortByName mgr request.devName = none ∨
    ((meshFwdDbGet env.now mgr.fwdTable request.addr).1 = none ∧
      (request.cmd = .add → mgr.fwdTable.hashFind request.addr = none ∧ env.room = true))

theorem cleanups_at {table : MeshFwdTable} {times : List Jiffies}
    {i : Fin meshFwdHashSize} {p : ℕ} {item : MeshFwdItem}
    (h : (cleanups table times).items.At i p item) : table.items.At i p item := by
  induction times generalizing table with
  | nil => exact h
  | cons now times ih => exact (ChainTable.at_sweep.mp (ih h)).1

theorem at_cleanups {table : MeshFwdTable} {times : List Jiffies}
    {i : Fin meshFwdHashSize} {p : ℕ} {item : MeshFwdItem}
    (h : table.items.At i p item) (hstatic : item.isStatic = true) :
    (cleanups table times).items.At i p item := by
  induction times generalizing table with
  | nil => exact h
  | cons now times ih => exact ih (ChainTable.at_sweep.mpr ⟨h, by simp [hstatic]⟩)

section Answers

variable {env : Env} {mgr after : MeshMgr} {request : FwdRequest} {dev : DevPtr} {p : ℕ} {res : ℤ}

theorem CtrlContract.refused (hres : res ≠ 0) : CtrlContract env mgr request res mgr where
  added := fun _ h => absurd h hres
  deleted := fun _ h => absurd h hres
  counts := fun _ _ _ => rfl

theorem CtrlContract.not_hold (hp : mgr.fwdTable.items.Linked p)
    (hafter : after.fwdTable.items = mgr.fwdTable.items.hold p) :
    ¬CtrlContract env mgr request res after := by
  intro h
  obtain ⟨i, hi⟩ := id hp
  obtain ⟨c, hc⟩ := mgr.fwdTable.items.alive i p hi
  have hk : mgr.fwdTable.items.useCount p = some c.useCount :=
    ChainTable.useCount_eq_some.mpr ⟨c.val, hc⟩
  have hcount := h.counts p hp (hafter ▸ hp)
  rw [hafter, ChainTable.useCount_hold, hk] at hcount
  simp at hcount

theorem CtrlContract.new_item (hport : getPortByName mgr request.devName = some dev)
    (hfind : mgr.fwdTable.hashFind request.addr = none) (hcmd : request.cmd = .add)
    (hafter : after.fwdTable.items = mgr.fwdTable.items.insert (macHash request.addr)
      (newItem env.now dev request.addr false true)) :
    CtrlContract env mgr request 0 after where
  added := by
    intro _ _
    refine ⟨dev, mgr.fwdTable.items.mem.next, newItem env.now dev request.addr false true, hport,
      rfl, rfl, rfl, fun times now => ?_⟩
    have hat : (cleanups after.fwdTable times).items.At (macHash request.addr)
        mgr.fwdTable.items.mem.next (newItem env.now dev request.addr false true) := by
      refine at_cleanups ?_ rfl
      rw [hafter]
      exact ChainTable.at_insert.mpr (.inl ⟨rfl, rfl, rfl⟩)
    have hlookup : (cleanups after.fwdTable times).hashFind request.addr =
        some mgr.fwdTable.items.mem.next := by
      refine ChainTable.lookup_eq_of_unique hat rfl fun q item hq haddr => ?_
      have hq' := cleanups_at hq
      rw [hafter] at hq'
      rcases ChainTable.at_insert.mp hq' with ⟨_, rfl, _⟩ | hold
      · rfl
      · exact absurd haddr (ChainTable.ne_of_lookup_none hfind hold)
    refine ⟨⟨_, hat⟩, ?_⟩
    simp [meshFwdDbGet, hlookup, hat.2, hasExpired, newItem]
  deleted := by simp [hcmd]
  counts := by
    rintro q ⟨i, hi⟩ _
    have hq : q ≠ mgr.fwdTable.items.mem.next := by
      rintro rfl
      exact (ChainTable.Linked.at hi).elim fun _ ha => ChainTable.not_at_next ha
    rw [hafter, ChainTable.useCount_insert, if_neg hq]

theorem CtrlContract.not_static (hcmd : request.cmd = .add)
    (hfind : ∀ q, after.fwdTable.hashFind request.addr = some q →
      (after.fwdTable.items.read q).any MeshFwdItem.isStatic = false) :
    ¬CtrlContract env mgr request 0 after := by
  intro h
  obtain ⟨dev, q, item, _, _, _, hstatic, hkeep⟩ := h.added hcmd rfl
  obtain ⟨⟨i, hat⟩, hgot⟩ := hkeep [] 0
  change (meshFwdDbGet 0 after.fwdTable request.addr).1 = some q at hgot
  rcases meshFwdDbGet_cases 0 after.fwdTable request.addr with
    ⟨r, other, hr, _, _, _, heq⟩ | ⟨heq, _⟩
  · rw [heq] at hgot
    obtain rfl := Option.some.inj hgot
    have hread : after.fwdTable.items.read r = some item := hat.2
    have := hfind r hr
    simp [hread, hstatic] at this
  · rw [heq] at hgot
    cases hgot

theorem ctrlContract_add_iff (hport : getPortByName mgr request.devName = some dev)
    (hcmd : request.cmd = .add)
    (hexpired : ∀ p item, mgr.fwdTable.hashFind request.addr = some p →
      mgr.fwdTable.items.read p = some item → mgr.fwdTable.hasExpired env.now item = true)
    (hins : Inserted env.now env.room mgr.fwdTable dev request.addr false true after.fwdTable) :
    CtrlContract env mgr request 0 after ↔
      mgr.fwdTable.hashFind request.addr = none ∧ env.room = true := by
  generalize htable : after.fwdTable = table at hins
  cases hins with
  | kept hfind hat =>
      refine iff_of_false (CtrlContract.not_static hcmd fun q hq => ?_) (by simp [hfind])
      obtain rfl := Option.some.inj (hfind.symm.trans (htable ▸ hq))
      rw [htable, hat.2, Option.any_some]
      exact not_isStatic_of_hasExpired (hexpired _ _ hfind hat.2)
  | @replaced p item hfind hat =>
      refine iff_of_false (CtrlContract.not_static hcmd fun q hq => ?_) (by simp [hfind])
      have hsame : after.fwdTable.hashFind request.addr = some p := by
        rw [htable]
        exact (ChainTable.lookup_edit (by simp)).trans hfind
      obtain rfl := Option.some.inj (hsame.symm.trans hq)
      have hstatic := not_isStatic_of_hasExpired (hexpired _ _ hfind hat.2)
      simp [htable, hat.2, possiblyReplace, hstatic]
  | added hfind hroom =>
      exact iff_of_true (.new_item hport hfind hcmd (by rw [htable])) ⟨hfind, hroom⟩
  | full hfind hroom =>
      refine iff_of_false (CtrlContract.not_static hcmd fun q hq => ?_) (by simp [hroom])
      rw [htable, hfind] at hq
      cases hq

end Answers

/-- The ioctl keeps its contract exactly in the clean cases. -/
theorem ctrlContract_iff_clean (env : Env) (mgr : MeshMgr) (request : FwdRequest) :
    (∃ res after, fwdCtrl env mgr request = some (res, after) ∧
      CtrlContract env mgr request res after) ↔ CtrlClean env mgr request := by
  cases hport : getPortByName mgr request.devName with
  | none =>
      refine iff_of_true ⟨-enodev, mgr, ?_, .refused (by decide)⟩ (.inl hport)
      simp [fwdCtrl, hport]
  | some dev =>
      rcases meshFwdDbGet_cases env.now mgr.fwdTable request.addr with
        ⟨p, item, hfind, hat, haddr, hexp, hget⟩ | ⟨hget, hexpired⟩
      · -- The item was found: only a deletion gives the reference back, and the item stays.
        refine iff_of_false ?_ (by simp [CtrlClean, hport, hget])
        rintro ⟨res, after, hctrl, hok⟩
        have hput := meshFwdDbPut_hold hat.linked
        cases hcmd : request.cmd with
        | delete =>
            simp only [fwdCtrl, hport, hget, hcmd, hput, Option.map_some, Option.some.injEq,
              Prod.mk.injEq] at hctrl
            obtain ⟨rfl, rfl⟩ := hctrl
            have := hok.deleted hcmd rfl
            simp [hget] at this
        | _ =>
            simp only [fwdCtrl, hport, hget, hcmd, Option.some.injEq, Prod.mk.injEq] at hctrl
            obtain ⟨rfl, rfl⟩ := hctrl
            exact CtrlContract.not_hold hat.linked rfl hok
      · cases hcmd : request.cmd with
        | add =>
            obtain ⟨after, hafter⟩ : ∃ after : MeshMgr, after = { mgr with
                fwdTable := meshFwdDbInsert env.now env.room mgr.fwdTable dev request.addr
                  false true } := ⟨_, rfl⟩
            have hctrl : fwdCtrl env mgr request = some (0, after) := by
              simp [fwdCtrl, hport, hget, hcmd, hafter]
            have hins : Inserted env.now env.room mgr.fwdTable dev request.addr false true
                after.fwdTable := by
              rw [hafter]
              exact meshFwdDbInsert_cases ..
            have hiff := ctrlContract_add_iff hport hcmd hexpired hins
            constructor
            · rintro ⟨res, after', heq, hok⟩
              obtain ⟨rfl, rfl⟩ := Prod.mk.inj (Option.some.inj (hctrl.symm.trans heq))
              exact .inr ⟨by rw [hget], fun _ => hiff.mp hok⟩
            · rintro (hnone | ⟨_, hclean⟩)
              · exact absurd (hport.symm.trans hnone) (by simp)
              · exact ⟨0, after, hctrl, hiff.mpr (hclean hcmd)⟩
        | _ =>
            refine iff_of_true ⟨-enoent, mgr, ?_, .refused (by decide)⟩ (.inr ⟨?_, ?_⟩)
            · simp [fwdCtrl, hport, hget, hcmd]
            · rw [hget]
            · simp [hcmd]

def knownStation : MeshMgr :=
  { twoPorts with
    fwdTable := meshFwdDbInsert 5 true twoPorts.fwdTable 1 (stationMac 7) false true }

/-- A deletion answers 0, and the item is still found. -/
theorem delete_keeps_item : ∃ after,
    fwdCtrl ⟨10, true⟩ knownStation ⟨.delete, stationMac 7, "ath0"⟩ = some (0, after) ∧
    ¬CtrlContract ⟨10, true⟩ knownStation ⟨.delete, stationMac 7, "ath0"⟩ 0 after := by
  have hrun : (fwdCtrl ⟨10, true⟩ knownStation ⟨.delete, stationMac 7, "ath0"⟩).any (fun r =>
      decide (r.1 = 0 ∧ (meshFwdDbGet 10 r.2.fwdTable (stationMac 7)).1 ≠ none)) = true := by
    decide +kernel
  obtain ⟨⟨res, after⟩, hctrl, hdone⟩ := (Option.any_eq_true _ _).mp hrun
  obtain ⟨hres, hfound⟩ := of_decide_eq_true hdone
  obtain rfl : res = 0 := hres
  exact ⟨after, hctrl, fun hok => hfound (hok.deleted rfl rfl)⟩

end Mesh
end WirelessMesh
