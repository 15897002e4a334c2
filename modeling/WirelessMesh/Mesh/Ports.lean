import WirelessMesh.Mesh.BacklogSafety
import WirelessMesh.Mesh.Forward

/-!
# Ports come and go while frames wait

A node has a manager, a CPU with its backlog, and calls of
`swjtu_mesh_register_port` and `swjtu_mesh_unregister_port` that are half done. A
frame is queued with the device it came in on and learnt from only when it is taken
off the queue. An item of the forwarding table stays on a registered port exactly as
long as no step stores the address of a port that is not registered, and no port
leaves the list with items of its own.
-/

namespace WirelessMesh
namespace Mesh

open MeshFwdTable Machine

inductive Call where
  | attach (port : DevPtr) (index : ℕ)
  | unlink (port : DevPtr)
deriving DecidableEq

structure Node where
  mgr : MeshMgr
  calls : List Call
  cpu : Cpu Skb

/-- A node as it is loaded, with its devices in memory and none registered. -/
def Node.start (devs : DevPtr → MeshDevice) (meshAddr : Mac) : Node where
  mgr := ⟨devs, [], fwdInitTable, meshAddr⟩
  calls := []
  cpu := .start

inductive NodeEvent where
  | register (port : DevPtr)
  | unregister (port : DevPtr)
  | resume (call : Call)
  | rx (skb : Skb)
  | tasklet

structure NodeEnv extends Env where
  cloneOk : ℕ → Bool

/-- The frame that the next step of the tasklet hands to `__meshif_receive_skb`. -/
def Pc.handing {φ : Type*} : Pc φ → Option φ
  | .receive _ skb => some skb
  | _ => none

/-- `__meshif_receive_skb`: the forwarding table is the one packet handler. -/
def meshifReceiveSkb (env : NodeEnv) (mgr : MeshMgr) (skb : Skb) : Option MeshMgr :=
  (handleFrame env.toEnv env.cloneOk mgr skb skb.dev).map fun r => r.2.1

def Node.step : NodeEnv × NodeEvent → Node → Option Node
  | (_, .register port), node =>
      match registerPortLink node.mgr port with
      | (none, mgr) => some { node with mgr }
      | (some index, mgr) => some { node with mgr, calls := .attach port index :: node.calls }
  | (_, .unregister port), node =>
      some { node with
        mgr := unregisterPortForget node.mgr port, calls := .unlink port :: node.calls }
  | (env, .resume call), node =>
      if call ∈ node.calls then
        let calls := node.calls.erase call
        match call with
        | .attach port index =>
            some { node with mgr := registerPortAttach env.toEnv node.mgr port index, calls }
        | .unlink port =>
            (unregisterPortUnlink node.mgr port).map fun mgr => { node with mgr, calls }
      else none
  | (env, .rx skb), node => (cpuStep (env.now, .rx skb) node.cpu).map fun cpu => { node with cpu }
  | (env, .tasklet), node => do
      let cpu ← cpuStep (env.now, .tasklet) node.cpu
      match node.cpu.pc.handing with
      | none => return { node with cpu }
      | some skb =>
          let mgr ← meshifReceiveSkb env node.mgr skb
          return { node with mgr, cpu }

def DestsRegistered (mgr : MeshMgr) : Prop :=
  ∀ p item, mgr.fwdTable.Linked p item → item.dest ∈ mgr.ports

/-- An insertion makes an item of its source: a new one, or one it takes over. -/
def stores (env : Env) (table : MeshFwdTable) (addr : Mac) (isLocal : Bool) : Bool :=
  match table.hashFind addr with
  | none => env.room
  | some p =>
      (table.items.read p).any fun item => !item.isLocal && (!item.isStatic || isLocal)

/-- The steps that keep the items on registered ports. -/
def Tidy : NodeEnv × NodeEvent → Node → Prop
  | (env, .resume (.attach port _)), node =>
      port ∈ node.mgr.ports ∨
        stores env.toEnv node.mgr.fwdTable (node.mgr.devs port).devAddr true = false
  | (_, .resume (.unlink port)), node =>
      ∀ p item, node.mgr.fwdTable.Linked p item → item.dest ≠ port
  | (env, .tasklet), node =>
      ∀ skb dev, node.cpu.pc.handing = some skb → skb.dev = some dev →
        dev ∈ node.mgr.ports ∨ (node.mgr.devs dev).up = false ∨ isMulticast skb.addr2 = true ∨
          stores env.toEnv node.mgr.fwdTable skb.addr2 false = false
  | _, _ => True

/-! ## Single steps -/

section Steps

variable {env : Env} {table table' : MeshFwdTable} {source port : DevPtr} {addr : Mac}
  {isLocal isStatic : Bool} {ports : List DevPtr}

theorem possiblyReplace_dest (now : Jiffies) (item : MeshFwdItem) :
    (possiblyReplace now source isLocal item).dest =
      if !item.isStatic || isLocal then source else item.dest := by
  unfold possiblyReplace
  split_ifs <;> rfl

theorem dests_inserted_iff (h : ∀ p item, table.Linked p item → item.dest ∈ ports)
    (hins : Inserted env.now env.room table source addr isLocal isStatic table') :
    (∀ p item, table'.Linked p item → item.dest ∈ ports) ↔
      source ∈ ports ∨ stores env table addr isLocal = false := by
  cases hins with
  | kept hfind hat haddr hlocal =>
      exact iff_of_true h (.inr (by simp [stores, hfind, hat.2, hlocal]))
  | full hfind hroom => exact iff_of_true h (.inr (by simp [stores, hfind, hroom]))
  | added hfind hroom =>
      have hstores : stores env table addr isLocal = true := by simp [stores, hfind, hroom]
      rw [hstores, or_iff_left (by decide)]
      constructor
      · intro h'
        exact h' _ _ ⟨_, ChainTable.at_insert.mpr (.inl ⟨rfl, rfl, rfl⟩)⟩
      · rintro hsource p item ⟨i, hp⟩
        rcases ChainTable.at_insert.mp hp with ⟨_, _, rfl⟩ | hp
        · exact hsource
        · exact h p item ⟨i, hp⟩
  | @replaced q item hfind hat haddr hlocal =>
      have hstores : stores env table addr isLocal = (!item.isStatic || isLocal) := by
        simp [stores, hfind, hat.2, hlocal]
      rw [hstores]
      constructor
      · intro h'
        have hdest := h' q _ ⟨_, ChainTable.at_edit.mpr ⟨item, hat, rfl⟩⟩
        rw [if_pos rfl, possiblyReplace_dest] at hdest
        cases hcond : !item.isStatic || isLocal with
        | false => exact .inr rfl
        | true =>
            rw [hcond, if_pos rfl] at hdest
            exact .inl hdest
      · rintro hcase p other ⟨i, hp⟩
        obtain ⟨old, hold, rfl⟩ := ChainTable.at_edit.mp hp
        split_ifs with hpq
        · subst hpq
          obtain ⟨_, rfl⟩ := hold.eq hat
          rw [possiblyReplace_dest]
          split_ifs with hcond
          · rcases hcase with hsource | hnone
            · exact hsource
            · simp [hcond] at hnone
          · exact h p old ⟨i, hold⟩
        · exact h p old ⟨i, hold⟩

theorem handleFrameFinish_mgr {cloneOk : ℕ → Bool} {mgr mgr' : MeshMgr} {skb : Skb}
    {traffic : Traffic} (h : handleFrameFinish env cloneOk mgr skb = some (mgr', traffic)) :
    mgr' = mgr := by
  unfold handleFrameFinish at h
  cases hdev : skb.dev with
  | none =>
      simp only [hdev, Option.some.injEq, Prod.mk.injEq] at h
      exact h.1.symm
  | some dev =>
      simp only [hdev] at h
      split_ifs at h
      · obtain ⟨rfl, _⟩ := Prod.mk.inj (Option.some.inj h)
        rfl
      · rcases meshFwdDbGet_cases env.now mgr.fwdTable skb.addr1 with
          ⟨p, item, hfind, hat, _, _, hget⟩ | ⟨hget, _⟩
        · have hput := meshFwdDbPut_hold hat.linked
          simp [hget, hat.2, hput] at h
          exact h.1.symm
        · simp only [hget, Option.some.injEq, Prod.mk.injEq] at h
          exact h.1.symm

theorem meshifReceiveSkb_cases {env : NodeEnv} {mgr mgr' : MeshMgr} {skb : Skb}
    (h : meshifReceiveSkb env mgr skb = some mgr') :
    (mgr' = mgr ∧ ∀ dev, skb.dev = some dev →
      (mgr.devs dev).up = false ∨ isMulticast skb.addr2 = true) ∨
    ∃ dev, skb.dev = some dev ∧ (mgr.devs dev).up = true ∧ isMulticast skb.addr2 = false ∧
      mgr' = learn env.toEnv mgr dev skb.addr2 := by
  obtain ⟨⟨res, mgr'', traffic⟩, hframe, rfl⟩ := Option.map_eq_some_iff.mp h
  unfold handleFrame at hframe
  cases hdev : skb.dev with
  | none =>
      simp only [hdev, Option.some.injEq, Prod.mk.injEq] at hframe
      exact .inl ⟨hframe.2.1.symm, by simp⟩
  | some dev =>
      simp only [hdev] at hframe
      split_ifs at hframe with hrefuse hatt
      · obtain ⟨_, hmgr, _⟩ := by simpa only [Option.some.injEq, Prod.mk.injEq] using hframe
        refine .inl ⟨hmgr.symm, ?_⟩
        rintro d hd
        obtain rfl := Option.some.inj hd
        simpa using hrefuse
      · obtain ⟨⟨mgr₂, traffic₂⟩, hfinish, hret⟩ := Option.bind_eq_some_iff.mp hframe
        simp only [Option.pure_def, Option.some.injEq, Prod.mk.injEq] at hret
        obtain ⟨_, rfl, _⟩ := hret
        have hlearn := handleFrameFinish_mgr hfinish
        simp only [Bool.or_eq_true, Bool.not_eq_true', not_or, Bool.not_eq_false,
          Bool.not_eq_true] at hrefuse
        exact .inr ⟨dev, rfl, hrefuse.1, hrefuse.2, hlearn⟩

theorem registerPortLink_cases (mgr : MeshMgr) (port : DevPtr) :
    ((registerPortLink mgr port).2.devs = mgr.devs ∧
      (registerPortLink mgr port).2.fwdTable = mgr.fwdTable) ∧
    (((registerPortLink mgr port).1 = none ∧ (registerPortLink mgr port).2.ports = mgr.ports) ∨
      ((registerPortLink mgr port).1 = some mgr.ports.length ∧ port ∉ mgr.ports ∧
        (registerPortLink mgr port).2.ports = port :: mgr.ports)) := by
  have hcore : ∀ mgr : MeshMgr,
      (mgr.ports.any fun tmp => (mgr.devs tmp).name == (mgr.devs port).name) = false →
        port ∉ mgr.ports := by
    intro mgr hfree hmem
    have := List.any_eq_false.mp hfree port hmem
    simp at this
  unfold registerPortLink
  dsimp only
  generalize hmgr : (if (mgr.devs port).type = .transfer ∧ mgr.ports = [] then
      { mgr with meshAddr := (mgr.devs port).devAddr } else mgr) = mgr₁
  have hports : mgr₁.ports = mgr.ports ∧ mgr₁.devs = mgr.devs ∧ mgr₁.fwdTable = mgr.fwdTable := by
    rw [← hmgr]
    split_ifs <;> exact ⟨rfl, rfl, rfl⟩
  obtain ⟨hports, hdevs, htable⟩ := hports
  split_ifs with hname
  · exact ⟨⟨hdevs, htable⟩, .inl ⟨rfl, hports⟩⟩
  · have hnew := hcore mgr₁ (by simpa using hname)
    exact ⟨⟨hdevs, htable⟩, .inr ⟨by rw [hports], hports ▸ hnew, by rw [hports]⟩⟩

end Steps

theorem mem_registerPortLink {mgr : MeshMgr} {port q : DevPtr} (hq : q ∈ mgr.ports) :
    q ∈ (registerPortLink mgr port).2.ports := by
  obtain ⟨-, ⟨-, hsame⟩ | ⟨-, -, hcons⟩⟩ := registerPortLink_cases mgr port
  · rwa [hsame]
  · rw [hcons]
    exact List.mem_cons_of_mem _ hq

theorem nodup_registerPortLink {mgr : MeshMgr} {port : DevPtr} (h : mgr.ports.Nodup) :
    (registerPortLink mgr port).2.ports.Nodup := by
  obtain ⟨-, ⟨-, hsame⟩ | ⟨-, hnew, hcons⟩⟩ := registerPortLink_cases mgr port
  · rwa [hsame]
  · rw [hcons]
    exact List.nodup_cons.mpr ⟨hnew, h⟩

/-! ## Runs -/

theorem destsRegistered_registerPortLink {mgr : MeshMgr} (h : DestsRegistered mgr)
    (port : DevPtr) : DestsRegistered (registerPortLink mgr port).2 := by
  intro p item hp
  rw [(registerPortLink_cases mgr port).1.2] at hp
  exact mem_registerPortLink (h p item hp)

theorem destsRegistered_unlink_iff {mgr mgr' : MeshMgr} {port : DevPtr} (h : DestsRegistered mgr)
    (hports : mgr.ports.Nodup) (hunlink : unregisterPortUnlink mgr port = some mgr') :
    (DestsRegistered mgr' ↔ ∀ p item, mgr.fwdTable.Linked p item → item.dest ≠ port) ∧
      mgr'.ports.Nodup := by
  simp only [unregisterPortUnlink] at hunlink
  split_ifs at hunlink
  obtain rfl := Option.some.inj hunlink
  refine ⟨?_, hports.erase port⟩
  constructor
  · intro h' p item hp
    exact (hports.mem_erase_iff.mp (h' p item hp)).1
  · intro hfree p item hp
    exact hports.mem_erase_iff.mpr ⟨hfree p item hp, h p item hp⟩

theorem destsRegistered_receive_iff {env : NodeEnv} {mgr mgr' : MeshMgr} {skb : Skb}
    (h : DestsRegistered mgr) (hreceive : meshifReceiveSkb env mgr skb = some mgr') :
    (DestsRegistered mgr' ↔ ∀ dev, skb.dev = some dev →
        dev ∈ mgr.ports ∨ (mgr.devs dev).up = false ∨ isMulticast skb.addr2 = true ∨
          stores env.toEnv mgr.fwdTable skb.addr2 false = false) ∧
      mgr'.ports = mgr.ports := by
  rcases meshifReceiveSkb_cases hreceive with ⟨rfl, hrefused⟩ | ⟨dev, hdev, hup, hsrc, rfl⟩
  · refine ⟨iff_of_true h fun dev hdev => ?_, rfl⟩
    rcases hrefused dev hdev with hdown | hmulti
    · exact .inr (.inl hdown)
    · exact .inr (.inr (.inl hmulti))
  · refine ⟨(dests_inserted_iff h (meshFwdDbInsert_cases ..)).trans ?_, rfl⟩
    constructor
    · intro hcase dev' hdev'
      obtain rfl := Option.some.inj (hdev.symm.trans hdev')
      simpa [hup, hsrc] using hcase
    · intro htidy
      simpa [hup, hsrc] using htidy dev hdev

theorem destsRegistered_step_iff {event : NodeEnv × NodeEvent} {node node' : Node}
    (h : DestsRegistered node.mgr) (hports : node.mgr.ports.Nodup)
    (hstep : Node.step event node = some node') :
    (DestsRegistered node'.mgr ↔ Tidy event node) ∧ node'.mgr.ports.Nodup := by
  obtain ⟨env, event⟩ := event
  cases event with
  | register port =>
      have hmgr : node'.mgr = (registerPortLink node.mgr port).2 := by
        simp only [Node.step] at hstep
        split at hstep
        · rename_i mgr hlink
          rw [← Option.some.inj hstep, hlink]
        · rename_i index mgr hlink
          rw [← Option.some.inj hstep, hlink]
      rw [hmgr]
      exact ⟨iff_of_true (destsRegistered_registerPortLink h port) trivial,
        nodup_registerPortLink hports⟩
  | unregister port =>
      obtain rfl := Option.some.inj hstep
      refine ⟨iff_of_true ?_ trivial, hports⟩
      rintro p item ⟨i, hp⟩
      exact h p item ⟨i, (ChainTable.at_sweep.mp hp).1⟩
  | resume call =>
      simp only [Node.step] at hstep
      split_ifs at hstep
      cases call with
      | attach port index =>
          obtain rfl := Option.some.inj hstep
          exact ⟨dests_inserted_iff h (meshFwdDbInsert_cases ..), hports⟩
      | unlink port =>
          obtain ⟨mgr, hunlink, rfl⟩ := Option.map_eq_some_iff.mp hstep
          exact destsRegistered_unlink_iff h hports hunlink
  | rx skb =>
      obtain ⟨cpu, _, rfl⟩ := Option.map_eq_some_iff.mp hstep
      exact ⟨iff_of_true h trivial, hports⟩
  | tasklet =>
      obtain ⟨cpu, _, hstep⟩ := Option.bind_eq_some_iff.mp hstep
      cases hhand : node.cpu.pc.handing with
      | none =>
          rw [hhand] at hstep
          obtain rfl := Option.some.inj hstep
          exact ⟨iff_of_true h (by simp [Tidy, hhand]), hports⟩
      | some skb =>
          rw [hhand] at hstep
          obtain ⟨mgr, hreceive, hnode⟩ := Option.bind_eq_some_iff.mp hstep
          obtain rfl := Option.some.inj hnode
          obtain ⟨hiff, hsame⟩ := destsRegistered_receive_iff h hreceive
          refine ⟨hiff.trans ?_, hsame ▸ hports⟩
          constructor
          · intro htidy skb' dev hskb
            obtain rfl := Option.some.inj (hhand.symm.trans hskb)
            exact htidy dev
          · exact fun htidy dev => htidy skb dev hhand

/-- From a start of the module, whatever happens in whatever order: all items stay on
registered ports exactly when all steps are tidy. -/
theorem destsRegistered_iff_tidy (devs : DevPtr → MeshDevice) (meshAddr : Mac)
    (events : List (NodeEnv × NodeEvent)) :
    (∀ node, Visits Node.step (.start devs meshAddr) events node → DestsRegistered node.mgr) ↔
      Throughout Node.step Tidy events (.start devs meshAddr) := by
  refine visits_iff (A := fun node => node.mgr.ports.Nodup) destsRegistered_step_iff events ?_
    List.nodup_nil
  rintro p item ⟨i, hp, _⟩
  simp [Node.start, fwdInitTable, ChainTable.empty] at hp

def calm : NodeEnv := ⟨⟨0, true⟩, fun _ => true⟩

/-- Port 1 is registered, a frame comes in on it and waits, the port is unregistered, and
the tasklet takes the frame. -/
def lateFrame : List (NodeEnv × NodeEvent) :=
  [(calm, .register 1), (calm, .resume (.attach 1 0)),
   (calm, .rx ⟨some 1, stationMac 9, stationMac 7⟩),
   (calm, .unregister 1), (calm, .resume (.unlink 1)),
   (calm, .tasklet), (calm, .tasklet), (calm, .tasklet), (calm, .tasklet), (calm, .tasklet)]

theorem late_frame_dangles : ∃ node,
    Visits Node.step (.start freshMgr.devs freshMgr.meshAddr) lateFrame node ∧
      ¬DestsRegistered node.mgr := by
  have hrun : (finish Node.step lateFrame (.start freshMgr.devs freshMgr.meshAddr)).any
      (fun node => decide (node.mgr.ports = [] ∧
        node.mgr.fwdTable.items.chain (macHash (stationMac 7)) = [1])) = true := by
    decide +kernel
  obtain ⟨node, hv, hports, hchain⟩ := exists_visits hrun
  refine ⟨node, hv, fun hok => ?_⟩
  have hmem : 1 ∈ node.mgr.fwdTable.items.chain (macHash (stationMac 7)) := by
    rw [hchain]
    exact List.mem_singleton_self 1
  obtain ⟨item, hat⟩ := ChainTable.Linked.at hmem
  have hdest := hok 1 item ⟨_, hat⟩
  simp [hports] at hdest

end Mesh
end WirelessMesh
