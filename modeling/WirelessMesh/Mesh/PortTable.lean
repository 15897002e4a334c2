import WirelessMesh.Mesh.Ports

/-!
# What a port owns

A port is reached through its minor number and through its address. The number is
counted from the ports that are registered at the moment, the portal takes over the
address of the node, and start-up gives it the address of its bridge. Each port owns
its number and its address exactly as long as no registration gives out a number in
use and no port is given an address that the table holds for somebody else, or not at
all.
-/

namespace WirelessMesh
namespace Mesh

open MeshFwdTable Machine

structure PortalMgr where
  mgr : MeshMgr
  portal : Option DevPtr

def PortalMgr.start (devs : DevPtr → MeshDevice) (meshAddr : Mac) : PortalMgr :=
  ⟨⟨devs, [], fwdInitTable, meshAddr⟩, none⟩

def getPortFromMgr (mgr : MeshMgr) (index : ℕ) : Option DevPtr :=
  mgr.ports.find? fun port => (mgr.devs port).index == index

/-- The device that `swjtu_create_portal` sets up in zeroed memory. -/
def newPortal (meshAddr : Mac) : MeshDevice where
  name := "portal"
  index := 0
  type := .portal
  up := false
  devAddr := meshAddr
  attached := false

/-- `swjtu_create_portal`, with the memory it gets and the answer of
`register_netdevice`. -/
def createPortal (env : Env) (alloc : Option DevPtr) (netError : ℤ) (s : PortalMgr) :
    ℤ × PortalMgr :=
  if s.portal.isSome then (-eexist, s)
  else match alloc with
    | none => (-enomem, s)
    | some portal =>
        if netError ≠ 0 then (netError, s)
        else
          let mgr := { s.mgr with
            devs := Function.update s.mgr.devs portal (newPortal s.mgr.meshAddr) }
          let (error, mgr) := meshRegisterPort env mgr portal
          if error ≠ 0 then (error, { s with mgr }) else (0, ⟨mgr, some portal⟩)

/-- The answer of `unregister_netdevice` is passed on. -/
def removePortal (netError : ℤ) (s : PortalMgr) : Option (ℤ × PortalMgr) :=
  match s.portal with
  | none => some (-enoent, s)
  | some portal => (meshUnregisterPort s.mgr portal).map fun mgr => (netError, ⟨mgr, none⟩)

/-- `__portal_startup`: `bridge` is the address of the bridge that the net device is a
port of, `netUp` says that the net device is up and running already. -/
def portalStartup (isStartup : Bool) (bridge : Option Mac) (netUp : Bool) (mgr : MeshMgr)
    (portal : DevPtr) : Option (ℤ × MeshMgr) :=
  if isStartup then
    match bridge with
    | none => some (-enodev, mgr)
    | some addr =>
        let dev := mgr.devs portal
        some (0, { mgr with
          devs := Function.update mgr.devs portal
            { dev with devAddr := addr, up := if netUp then dev.up else true } })
  -- to stop, the address is copied from the null pointer
  else none

inductive PortEvent where
  | register (port : DevPtr)
  | unregister (port : DevPtr)
  | createPortal (alloc : Option DevPtr) (netError : ℤ)
  | removePortal (netError : ℤ)
  | startup (isStartup : Bool) (bridge : Option Mac) (netUp : Bool)
  | frame (skb : Skb)

/-- One call. Memory that is handed out is not in use, and start-up reaches the portal
only as one of the ports. -/
def PortalMgr.step : NodeEnv × PortEvent → PortalMgr → Option PortalMgr
  | (env, .register port), s => some { s with mgr := (meshRegisterPort env.toEnv s.mgr port).2 }
  | (_, .unregister port), s => (meshUnregisterPort s.mgr port).map fun mgr => { s with mgr }
  | (env, .createPortal alloc netError), s =>
      if alloc.any (s.mgr.ports.contains ·) then none
      else some (Mesh.createPortal env.toEnv alloc netError s).2
  | (_, .removePortal netError), s => (Mesh.removePortal netError s).map Prod.snd
  | (_, .startup isStartup bridge netUp), s =>
      match s.portal with
      | none => none
      | some portal =>
          if portal ∈ s.mgr.ports then
            (portalStartup isStartup bridge netUp s.mgr portal).map fun r => { s with mgr := r.2 }
          else none
  | (env, .frame skb), s => (meshifReceiveSkb env s.mgr skb).map fun mgr => { s with mgr }

/-! ## Ownership -/

/-- The table holds a local static item for the address that leads to the port. -/
def Owns (table : MeshFwdTable) (port : DevPtr) (addr : Mac) : Prop :=
  ∃ p item, table.Linked p item ∧ item.addr = addr ∧ item.dest = port ∧ item.isLocal = true ∧
    item.isStatic = true

/-- Every port has its own minor number, is found by it, and owns its address. -/
structure PortsOwn (mgr : MeshMgr) : Prop where
  distinct : ∀ p ∈ mgr.ports, ∀ q ∈ mgr.ports, (mgr.devs p).index = (mgr.devs q).index → p = q
  found : ∀ p ∈ mgr.ports, getPortFromMgr mgr (mgr.devs p).index = some p
  owned : ∀ p ∈ mgr.ports, Owns mgr.fwdTable p (mgr.devs p).devAddr

/-- A registration does no harm: a port has the name already, or the next number is free and
the address can be had. -/
def Grants (env : Env) (mgr : MeshMgr) (port : DevPtr) : Prop :=
  (∃ q ∈ mgr.ports, (mgr.devs q).name = (mgr.devs port).name) ∨
    (∀ q ∈ mgr.ports, (mgr.devs q).index ≠ mgr.ports.length + 1) ∧
    (stores env mgr.fwdTable (mgr.devs port).devAddr true = true ∨
      Owns mgr.fwdTable port (mgr.devs port).devAddr)

/-- The calls that keep every port in possession. -/
def Granted : NodeEnv × PortEvent → PortalMgr → Prop
  | (env, .register port), s => Grants env.toEnv s.mgr port
  | (env, .createPortal alloc netError), s =>
      ∀ portal, s.portal = none → alloc = some portal → netError = 0 →
        Grants env.toEnv { s.mgr with
          devs := Function.update s.mgr.devs portal (newPortal s.mgr.meshAddr) } portal
  | (_, .startup _ bridge _), s =>
      ∀ portal addr, s.portal = some portal → bridge = some addr → Owns s.mgr.fwdTable portal addr
  | _, _ => True

/-! ## Single steps -/

section Steps

variable {env : Env} {mgr mgr' : MeshMgr} {table table' : MeshFwdTable} {port q : DevPtr}
  {addr : Mac}

theorem getPortFromMgr_of_distinct
    (h : ∀ p ∈ mgr.ports, ∀ q ∈ mgr.ports, (mgr.devs p).index = (mgr.devs q).index → p = q)
    (hp : port ∈ mgr.ports) : getPortFromMgr mgr (mgr.devs port).index = some port := by
  unfold getPortFromMgr
  cases hfind : mgr.ports.find? fun q => (mgr.devs q).index == (mgr.devs port).index with
  | none =>
      have := List.find?_eq_none.mp hfind port hp
      simp at this
  | some q =>
      have hq : (mgr.devs q).index = (mgr.devs port).index := by
        simpa using List.find?_some hfind
      rw [h q (List.mem_of_find?_eq_some hfind) port hp hq]

theorem PortsOwn.mk'
    (distinct : ∀ p ∈ mgr.ports, ∀ q ∈ mgr.ports,
      (mgr.devs p).index = (mgr.devs q).index → p = q)
    (owned : ∀ p ∈ mgr.ports, Owns mgr.fwdTable p (mgr.devs p).devAddr) : PortsOwn mgr :=
  ⟨distinct, fun _ hp => getPortFromMgr_of_distinct distinct hp, owned⟩

theorem Owns.inserted {source : DevPtr} {isLocal isStatic : Bool} (h : Owns table q addr)
    {addr' : Mac} (hins : Inserted env.now env.room table source addr' isLocal isStatic table') :
    Owns table' q addr := by
  obtain ⟨p, item, ⟨i, hat⟩, haddr, hdest, hlocal, hstatic⟩ := h
  refine ⟨p, item, ⟨i, ?_⟩, haddr, hdest, hlocal, hstatic⟩
  cases hins with
  | kept => exact hat
  | full => exact hat
  | added => exact ChainTable.at_insert.mpr (.inr hat)
  | @replaced r other _ hother _ hnot =>
      refine ChainTable.at_edit.mpr ⟨item, hat, ?_⟩
      rw [if_neg]
      intro hpr
      subst hpr
      obtain ⟨_, rfl⟩ := hat.eq hother
      simp [hlocal] at hnot

theorem owns_inserted_iff
    (hins : Inserted env.now env.room table port addr true true table') :
    Owns table' port addr ↔ stores env table addr true = true ∨ Owns table port addr := by
  cases hins with
  | kept hfind hat haddr hlocal =>
      have hnot : stores env table addr true = false := by simp [stores, hfind, hat.2, hlocal]
      simp [hnot]
  | full hfind hroom =>
      have hnot : stores env table addr true = false := by simp [stores, hfind, hroom]
      simp [hnot]
  | added hfind hroom =>
      refine iff_of_true ⟨_, _, ⟨_, ChainTable.at_insert.mpr (.inl ⟨rfl, rfl, rfl⟩)⟩, rfl, rfl,
        rfl, rfl⟩ (.inl ?_)
      simp [stores, hfind, hroom]
  | @replaced r item hfind hat haddr hlocal =>
      refine iff_of_true ⟨r, _, ⟨_, ChainTable.at_edit.mpr ⟨item, hat, rfl⟩⟩, ?_⟩ (.inl ?_)
      · simp [possiblyReplace, haddr]
      · simp [stores, hfind, hat.2, hlocal]

theorem Owns.swept (h : Owns table q addr) (hne : q ≠ port) :
    Owns (meshFwdDbDeleteByDev table port) q addr := by
  obtain ⟨p, item, ⟨i, hat⟩, haddr, hdest, hrest⟩ := h
  refine ⟨p, item, ⟨i, ChainTable.at_sweep.mpr ⟨hat, ?_⟩⟩, haddr, hdest, hrest⟩
  simpa [hdest] using hne

theorem PortsOwn.update_free (h : PortsOwn mgr) (hfree : port ∉ mgr.ports) (dev : MeshDevice) :
    PortsOwn { mgr with devs := Function.update mgr.devs port dev } := by
  have hsame : ∀ q ∈ mgr.ports, Function.update mgr.devs port dev q = mgr.devs q := by
    intro q hq
    exact Function.update_of_ne (ne_of_mem_of_not_mem hq hfree) dev mgr.devs
  apply PortsOwn.mk'
  · intro p hp q hq hindex
    dsimp only at hp hq hindex
    rw [hsame p hp, hsame q hq] at hindex
    exact h.distinct p hp q hq hindex
  · intro p hp
    dsimp only at hp ⊢
    rw [hsame p hp]
    exact h.owned p hp

/-- The new port is in possession exactly when its number was free and it got its
address. The others lose nothing. -/
theorem portsOwn_attach_iff (h : PortsOwn mgr) (hnew : port ∉ mgr.ports)
    (hdevs : mgr'.devs = mgr.devs) (htable : mgr'.fwdTable = mgr.fwdTable)
    (hports : mgr'.ports = port :: mgr.ports) :
    PortsOwn (registerPortAttach env mgr' port mgr.ports.length) ↔
      (∀ q ∈ mgr.ports, (mgr.devs q).index ≠ mgr.ports.length + 1) ∧
      (stores env mgr.fwdTable (mgr.devs port).devAddr true = true ∨
        Owns mgr.fwdTable port (mgr.devs port).devAddr) := by
  have hins := meshFwdDbInsert_cases env.now env.room mgr.fwdTable port (mgr.devs port).devAddr
    true true
  have hself : (registerPortAttach env mgr' port mgr.ports.length).devs port =
      { mgr.devs port with index := mgr.ports.length + 1, attached := true } := by
    simp [registerPortAttach, hdevs]
  have hother : ∀ q ∈ mgr.ports,
      (registerPortAttach env mgr' port mgr.ports.length).devs q = mgr.devs q := by
    intro q hq
    simp [registerPortAttach, hdevs, ne_of_mem_of_not_mem hq hnew]
  have htable' : (registerPortAttach env mgr' port mgr.ports.length).fwdTable =
      meshFwdDbInsert env.now env.room mgr.fwdTable port (mgr.devs port).devAddr true true := by
    simp [registerPortAttach, fwdAddDev, hdevs, htable]
  have hports' : (registerPortAttach env mgr' port mgr.ports.length).ports = port :: mgr.ports :=
    hports
  constructor
  · intro hown
    constructor
    · intro q hq hindex
      apply ne_of_mem_of_not_mem hq hnew
      apply hown.distinct q (by simp [hports', hq]) port (by simp [hports'])
      rw [hother q hq, hself, hindex]
    · apply (owns_inserted_iff hins).mp
      have := hown.owned port (by simp [hports'])
      rwa [hself, htable'] at this
  · rintro ⟨hfree, hgets⟩
    apply PortsOwn.mk'
    · intro p hp q hq hindex
      rw [hports', List.mem_cons] at hp hq
      rcases hp with rfl | hp <;> rcases hq with rfl | hq
      · rfl
      · rw [hself, hother q hq] at hindex
        exact absurd hindex.symm (hfree q hq)
      · rw [hself, hother p hp] at hindex
        exact absurd hindex (hfree p hp)
      · rw [hother p hp, hother q hq] at hindex
        exact h.distinct p hp q hq hindex
    · intro p hp
      rw [hports', List.mem_cons] at hp
      rw [htable']
      rcases hp with rfl | hp
      · rw [hself]
        exact (owns_inserted_iff hins).mpr hgets
      · rw [hother p hp]
        exact (h.owned p hp).inserted hins

theorem registerPortLink_eq_none_iff (mgr : MeshMgr) (port : DevPtr) :
    (registerPortLink mgr port).1 = none ↔
      ∃ q ∈ mgr.ports, (mgr.devs q).name = (mgr.devs port).name := by
  unfold registerPortLink
  dsimp only
  split_ifs <;> simp_all

theorem portsOwn_register_iff (env : Env) (port : DevPtr) (h : PortsOwn mgr)
    (hports : mgr.ports.Nodup) :
    (PortsOwn (meshRegisterPort env mgr port).2 ↔ Grants env mgr port) ∧
      (meshRegisterPort env mgr port).2.ports.Nodup := by
  obtain ⟨⟨hdevs, htable⟩, hcase⟩ := registerPortLink_cases mgr port
  have hrefused := registerPortLink_eq_none_iff mgr port
  rcases hlink : registerPortLink mgr port with ⟨index, mgr'⟩
  simp only [hlink] at hdevs htable hcase hrefused
  rcases hcase with ⟨rfl, hsame⟩ | ⟨rfl, hnew, hcons⟩
  · have hmgr : (meshRegisterPort env mgr port).2 = mgr' := by simp [meshRegisterPort, hlink]
    rw [hmgr, hsame]
    refine ⟨iff_of_true (PortsOwn.mk' ?_ ?_) (.inl (hrefused.mp rfl)), hports⟩
    · rw [hdevs, hsame]
      exact h.distinct
    · rw [hdevs, hsame, htable]
      exact h.owned
  · have hmgr : (meshRegisterPort env mgr port).2 =
        registerPortAttach env mgr' port mgr.ports.length := by simp [meshRegisterPort, hlink]
    have hgrants : Grants env mgr port ↔
        (∀ q ∈ mgr.ports, (mgr.devs q).index ≠ mgr.ports.length + 1) ∧
        (stores env mgr.fwdTable (mgr.devs port).devAddr true = true ∨
          Owns mgr.fwdTable port (mgr.devs port).devAddr) :=
      or_iff_right fun hname => nomatch hrefused.mpr hname
    rw [hmgr, hgrants]
    refine ⟨portsOwn_attach_iff h hnew hdevs htable hcons, ?_⟩
    rw [show (registerPortAttach env mgr' port mgr.ports.length).ports = mgr'.ports from rfl, hcons]
    exact List.nodup_cons.mpr ⟨hnew, hports⟩

theorem PortsOwn.unregister (h : PortsOwn mgr) (hports : mgr.ports.Nodup)
    (hstep : meshUnregisterPort mgr port = some mgr') : PortsOwn mgr' ∧ mgr'.ports.Nodup := by
  simp only [meshUnregisterPort, unregisterPortUnlink] at hstep
  split_ifs at hstep
  obtain rfl := Option.some.inj hstep
  have hleft : ∀ q ∈ mgr.ports.erase port, q ≠ port ∧ q ∈ mgr.ports :=
    fun q hq => hports.mem_erase_iff.mp hq
  refine ⟨PortsOwn.mk' ?_ ?_, hports.erase port⟩
  · intro p hp q hq hindex
    exact h.distinct p (hleft p hp).2 q (hleft q hq).2 hindex
  · intro p hp
    exact (h.owned p (hleft p hp).2).swept (hleft p hp).1

theorem PortsOwn.frame {env : NodeEnv} {skb : Skb} (h : PortsOwn mgr)
    (hstep : meshifReceiveSkb env mgr skb = some mgr') :
    PortsOwn mgr' ∧ mgr'.ports = mgr.ports := by
  rcases meshifReceiveSkb_cases hstep with ⟨rfl, _⟩ | ⟨dev, _, _, _, rfl⟩
  · exact ⟨h, rfl⟩
  · refine ⟨PortsOwn.mk' h.distinct ?_, rfl⟩
    intro p hp
    exact (h.owned p hp).inserted (meshFwdDbInsert_cases ..)

theorem portsOwn_update_iff {dev : MeshDevice} (h : PortsOwn mgr) (hport : port ∈ mgr.ports)
    (hindex : dev.index = (mgr.devs port).index) :
    PortsOwn { mgr with devs := Function.update mgr.devs port dev } ↔
      Owns mgr.fwdTable port dev.devAddr := by
  have hsame (q : DevPtr) : (Function.update mgr.devs port dev q).index = (mgr.devs q).index := by
    by_cases hq : q = port
    · subst hq
      simpa using hindex
    · simp [hq]
  constructor
  · intro hown
    simpa using hown.owned port hport
  · intro hown
    apply PortsOwn.mk'
    · intro p hp q hq heq
      dsimp only at heq
      rw [hsame, hsame] at heq
      exact h.distinct p hp q hq heq
    · intro p hp
      by_cases hq : p = port
      · subst hq
        simpa using hown
      · simpa [hq] using h.owned p hp

theorem portsOwn_startup_iff {isStartup netUp : Bool} {bridge : Option Mac} {error : ℤ}
    (h : PortsOwn mgr) (hport : port ∈ mgr.ports)
    (hstart : portalStartup isStartup bridge netUp mgr port = some (error, mgr')) :
    (PortsOwn mgr' ↔ ∀ addr, bridge = some addr → Owns mgr.fwdTable port addr) ∧
      mgr'.ports = mgr.ports := by
  cases isStartup with
  | false => simp [portalStartup] at hstart
  | true =>
      cases bridge with
      | none =>
          obtain ⟨-, rfl⟩ := Prod.mk.inj (Option.some.inj hstart)
          exact ⟨iff_of_true h (by simp), rfl⟩
      | some addr =>
          obtain ⟨-, rfl⟩ := Prod.mk.inj (Option.some.inj hstart)
          refine ⟨(portsOwn_update_iff h hport (by rfl)).trans ?_, rfl⟩
          simp

theorem createPortal_mgr {netError : ℤ} {s : PortalMgr} (hportal : s.portal = none)
    (hzero : netError = 0) :
    (createPortal env (some port) netError s).2.mgr =
      (meshRegisterPort env { s.mgr with
        devs := Function.update s.mgr.devs port (newPortal s.mgr.meshAddr) } port).2 := by
  simp only [createPortal, hportal, hzero, Option.isSome_none, Bool.false_eq_true, if_false,
    ne_eq, not_true_eq_false]
  split_ifs <;> rfl

theorem portsOwn_create_iff {alloc : Option DevPtr} {netError : ℤ} {s : PortalMgr}
    (h : PortsOwn s.mgr) (hports : s.mgr.ports.Nodup) (hfresh : ∀ p ∈ alloc, p ∉ s.mgr.ports) :
    (PortsOwn (createPortal env alloc netError s).2.mgr ↔
      ∀ portal, s.portal = none → alloc = some portal → netError = 0 →
        Grants env { s.mgr with
          devs := Function.update s.mgr.devs portal (newPortal s.mgr.meshAddr) } portal) ∧
      (createPortal env alloc netError s).2.mgr.ports.Nodup := by
  cases hportal : s.portal with
  | some old =>
      have hsame : (createPortal env alloc netError s).2 = s := by simp [createPortal, hportal]
      rw [hsame]
      exact ⟨iff_of_true h (by simp), hports⟩
  | none =>
      cases alloc with
      | none =>
          have hsame : (createPortal env none netError s).2 = s := by simp [createPortal, hportal]
          rw [hsame]
          exact ⟨iff_of_true h (by simp), hports⟩
      | some portal =>
          by_cases hzero : netError = 0
          · rw [createPortal_mgr hportal hzero]
            have hfree := h.update_free (hfresh portal rfl) (newPortal s.mgr.meshAddr)
            simpa [hzero] using portsOwn_register_iff env portal hfree hports
          · have hsame : (createPortal env (some portal) netError s).2 = s := by
              simp [createPortal, hportal, hzero]
            rw [hsame]
            exact ⟨iff_of_true h (fun _ _ _ h0 => absurd h0 hzero), hports⟩

end Steps

/-! ## Runs -/

theorem portsOwn_step_iff {event : NodeEnv × PortEvent} {s s' : PortalMgr}
    (h : PortsOwn s.mgr) (hports : s.mgr.ports.Nodup)
    (hstep : PortalMgr.step event s = some s') :
    (PortsOwn s'.mgr ↔ Granted event s) ∧ s'.mgr.ports.Nodup := by
  obtain ⟨env, event⟩ := event
  cases event with
  | register port =>
      obtain rfl := Option.some.inj hstep
      exact portsOwn_register_iff env.toEnv port h hports
  | unregister port =>
      obtain ⟨mgr, hmgr, rfl⟩ := Option.map_eq_some_iff.mp hstep
      obtain ⟨hown, hnodup⟩ := h.unregister hports hmgr
      exact ⟨iff_of_true hown trivial, hnodup⟩
  | createPortal alloc netError =>
      simp only [PortalMgr.step] at hstep
      split_ifs at hstep with hused
      obtain rfl := Option.some.inj hstep
      apply portsOwn_create_iff h hports
      intro p hp hmem
      obtain rfl := Option.mem_def.mp hp
      simp [hmem] at hused
  | removePortal netError =>
      obtain ⟨⟨error, s''⟩, hremove, rfl⟩ := Option.map_eq_some_iff.mp hstep
      unfold removePortal at hremove
      cases hportal : s.portal with
      | none =>
          rw [hportal] at hremove
          obtain ⟨_, rfl⟩ := Prod.mk.inj (Option.some.inj hremove)
          exact ⟨iff_of_true h trivial, hports⟩
      | some portal =>
          rw [hportal] at hremove
          obtain ⟨mgr, hmgr, heq⟩ := Option.map_eq_some_iff.mp hremove
          obtain ⟨_, rfl⟩ := Prod.mk.inj heq
          obtain ⟨hown, hnodup⟩ := h.unregister hports hmgr
          exact ⟨iff_of_true hown trivial, hnodup⟩
  | startup isStartup bridge netUp =>
      simp only [PortalMgr.step] at hstep
      cases hportal : s.portal with
      | none => simp [hportal] at hstep
      | some portal =>
          simp only [hportal] at hstep
          split_ifs at hstep with hmem
          obtain ⟨⟨error, mgr⟩, hstart, rfl⟩ := Option.map_eq_some_iff.mp hstep
          obtain ⟨hiff, hsame⟩ := portsOwn_startup_iff h hmem hstart
          refine ⟨?_, hsame ▸ hports⟩
          simp only [hiff, Granted, hportal, Option.some.injEq]
          constructor
          · rintro hown _ addr rfl
            exact hown addr
          · intro hown addr
            exact hown portal addr rfl
  | frame skb =>
      obtain ⟨mgr, hmgr, rfl⟩ := Option.map_eq_some_iff.mp hstep
      obtain ⟨hown, hsame⟩ := h.frame hmgr
      exact ⟨iff_of_true hown trivial, hsame ▸ hports⟩

/-- From a start of the module, whatever is called in whatever order: every port owns its
number and its address exactly when all calls are granted. -/
theorem portsOwn_iff_granted (devs : DevPtr → MeshDevice) (meshAddr : Mac)
    (events : List (NodeEnv × PortEvent)) :
    (∀ s, Visits PortalMgr.step (.start devs meshAddr) events s → PortsOwn s.mgr) ↔
      Throughout PortalMgr.step Granted events (.start devs meshAddr) := by
  apply visits_iff (A := fun s => s.mgr.ports.Nodup) portsOwn_step_iff events
  · apply PortsOwn.mk' <;> simp [PortalMgr.start]
  · exact List.nodup_nil

/-! ## Three ways to lose a number or an address -/

theorem not_owns_of_search {table : MeshFwdTable} {port : DevPtr} {addr : Mac}
    (h : table.items.search (fun item => item.addr == addr && item.dest == port) = none) :
    ¬Owns table port addr := by
  rintro ⟨p, item, ⟨i, hat⟩, haddr, hdest, _⟩
  have := ChainTable.not_of_search_none h hat
  simp [haddr, hdest] at this

def radios (p : DevPtr) : MeshDevice where
  name := if p = 1 then "ath0" else if p = 2 then "ath1" else "ath2"
  index := 0
  type := .transfer
  up := true
  devAddr := stationMac p
  attached := false

def radioThenPortal : List (NodeEnv × PortEvent) :=
  [(calm, .register 1), (calm, .createPortal (some 9) 0)]

/-- The portal is created on its own, and started as a port of a bridge. -/
def portalStarted : List (NodeEnv × PortEvent) :=
  [(calm, .createPortal (some 9) 0), (calm, .startup true (some (stationMac 5)) false)]

def radioReplaced : List (NodeEnv × PortEvent) :=
  [(calm, .register 1), (calm, .register 2), (calm, .unregister 1), (calm, .register 3)]

/-- The portal copies the address of the radio, whose item is local and stays. Start-up
changes the address of the portal and not the table. The third radio gets the number that
the second one has. -/
theorem ports_lose_possession :
    (∃ s, Visits PortalMgr.step (.start radios (stationMac 0)) radioThenPortal s ∧
      9 ∈ s.mgr.ports ∧ ¬Owns s.mgr.fwdTable 9 (s.mgr.devs 9).devAddr) ∧
    (∃ s, Visits PortalMgr.step (.start radios (stationMac 0)) portalStarted s ∧
      9 ∈ s.mgr.ports ∧ ¬Owns s.mgr.fwdTable 9 (s.mgr.devs 9).devAddr) ∧
    (∃ s, Visits PortalMgr.step (.start radios (stationMac 0)) radioReplaced s ∧
      s.mgr.ports = [3, 2] ∧ (s.mgr.devs 2).index = (s.mgr.devs 3).index ∧
      getPortFromMgr s.mgr (s.mgr.devs 2).index ≠ some 2) := by
  have hcopy : (finish PortalMgr.step radioThenPortal (.start radios (stationMac 0))).any
      (fun s => decide (9 ∈ s.mgr.ports ∧ s.mgr.fwdTable.items.search (fun item =>
        item.addr == (s.mgr.devs 9).devAddr && item.dest == 9) = none)) = true := by
    decide +kernel
  have hstart : (finish PortalMgr.step portalStarted (.start radios (stationMac 0))).any
      (fun s => decide (9 ∈ s.mgr.ports ∧ s.mgr.fwdTable.items.search (fun item =>
        item.addr == (s.mgr.devs 9).devAddr && item.dest == 9) = none)) = true := by
    decide +kernel
  have hreplaced : (finish PortalMgr.step radioReplaced (.start radios (stationMac 0))).any
      (fun s => decide (s.mgr.ports = [3, 2] ∧ (s.mgr.devs 2).index = (s.mgr.devs 3).index ∧
        getPortFromMgr s.mgr (s.mgr.devs 2).index ≠ some 2)) = true := by
    decide +kernel
  obtain ⟨s, hs, hport, hfree⟩ := exists_visits hcopy
  obtain ⟨t, ht, hport', hfree'⟩ := exists_visits hstart
  exact ⟨⟨s, hs, hport, not_owns_of_search hfree⟩, ⟨t, ht, hport', not_owns_of_search hfree'⟩,
    exists_visits hreplaced⟩

end Mesh
end WirelessMesh
