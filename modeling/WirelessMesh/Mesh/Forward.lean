import WirelessMesh.Mesh.Manager

/-!
# Forwarding a frame

`mesh_fwd_handle_frame` learns the source of a frame and sends the frame on: to the
port of its destination, or to all ports but the one it came from. Ownership of the
buffers is what the code has to get right. The buffers of one call are numbered, the
frame is 0 and each clone takes the next number; the traffic of the call lists which
were freed and which were handed to `swjtu_mesh_queue_xmit`. `cloneOk k` says whether
the clone that would be number `k` can be allocated.
-/

namespace WirelessMesh
namespace Mesh

open MeshFwdTable

structure Skb where
  dev : Option DevPtr
  addr1 : Mac
  addr2 : Mac

structure Traffic where
  made : ℕ
  freed : List ℕ
  sent : List (ℕ × DevPtr)
  txDropped : ℕ

namespace Traffic

def start : Traffic := ⟨1, [], [], 0⟩

def kfreeSkb (traffic : Traffic) (b : ℕ) : Traffic :=
  { traffic with freed := b :: traffic.freed }

def meshQueueXmit (traffic : Traffic) (b : ℕ) (dev : DevPtr) : Traffic :=
  { traffic with sent := (b, dev) :: traffic.sent }

def skbClone (cloneOk : ℕ → Bool) (traffic : Traffic) : Option ℕ × Traffic :=
  if cloneOk traffic.made then
    (some traffic.made, { traffic with made := traffic.made + 1 })
  else (none, traffic)

def drop (traffic : Traffic) : Traffic := { traffic with txDropped := traffic.txDropped + 1 }

def uses (traffic : Traffic) (b : ℕ) : ℕ :=
  traffic.freed.count b + (traffic.sent.map Prod.fst).count b

/-- Every buffer was freed or handed on, once. -/
def Conserved (traffic : Traffic) : Prop := ∀ b < traffic.made, traffic.uses b = 1

end Traffic

open Traffic

def shouldDeliver (dev : DevPtr) (skbDev : DevPtr) : Bool := dev != skbDev

def fwdForward (traffic : Traffic) (skbDev : DevPtr) (b : ℕ) (dest : DevPtr) : Traffic :=
  if shouldDeliver dest skbDev then traffic.meshQueueXmit b dest else traffic.kfreeSkb b

/-- The loop of `__fwd_flood` over the ports. Past the last port the working buffer is
left as it is. -/
def fwdFloodLoop (cloneOk : ℕ → Bool) (skbDev : DevPtr) (b : ℕ) : List DevPtr → Traffic → Traffic
  | [], traffic => traffic
  | p :: ports, traffic =>
      if shouldDeliver p skbDev then
        match skbClone cloneOk traffic with
        | (none, traffic) => traffic.drop.kfreeSkb b
        | (some skb2, traffic) =>
            fwdFloodLoop cloneOk skbDev b ports (traffic.meshQueueXmit skb2 p)
      else fwdFloodLoop cloneOk skbDev b ports traffic

def fwdFlood (cloneOk : ℕ → Bool) (ports : List DevPtr) (skbDev : DevPtr) (b : ℕ) (clone : Bool)
    (traffic : Traffic) : Traffic :=
  if clone then
    match skbClone cloneOk traffic with
    | (none, traffic) => traffic.drop
    | (some skb2, traffic) => fwdFloodLoop cloneOk skbDev skb2 ports traffic
  else fwdFloodLoop cloneOk skbDev b ports traffic

/-- `mesh_fwd_handle_frame_finish`. A device without a table has none to read. -/
def handleFrameFinish (env : Env) (cloneOk : ℕ → Bool) (mgr : MeshMgr) (skb : Skb) :
    Option (MeshMgr × Traffic) :=
  match skb.dev with
  | none => some (mgr, Traffic.start.kfreeSkb 0)
  | some dev =>
      if !(mgr.devs dev).attached then none
      else if isMulticast skb.addr1 then
        some (mgr, fwdFlood cloneOk mgr.ports dev 0 true .start)
      else
        match meshFwdDbGet env.now mgr.fwdTable skb.addr1 with
        | (some p, table) => do
            let destItem ← table.items.read p
            let traffic := fwdForward .start dev 0 destItem.dest
            let table ← meshFwdDbPut table p
            return ({ mgr with fwdTable := table }, traffic)
        | (none, table) =>
            some ({ mgr with fwdTable := table }, fwdFlood cloneOk mgr.ports dev 0 false .start)

def learn (env : Env) (mgr : MeshMgr) (dev : DevPtr) (sourceMac : Mac) : MeshMgr :=
  { mgr with
    fwdTable := meshFwdDbInsert env.now env.room mgr.fwdTable dev sourceMac false false }

/-- `mesh_fwd_handle_frame`: the answer, the manager and the traffic. A frame that is dropped at
once does not need a table, whose lock is nothing on one processor. -/
def handleFrame (env : Env) (cloneOk : ℕ → Bool) (mgr : MeshMgr) (skb : Skb)
    (dev : Option DevPtr) : Option (ℤ × MeshMgr × Traffic) :=
  match dev with
  | none => some (-enoent, mgr, Traffic.start.kfreeSkb 0)
  | some dev =>
      if !(mgr.devs dev).up || isMulticast skb.addr2 then
        some (0, mgr, Traffic.start.kfreeSkb 0)
      else if !(mgr.devs dev).attached then none
      else do
        let done ← handleFrameFinish env cloneOk (learn env mgr dev skb.addr2) skb
        return (0, done)

/-! ## Ownership -/

/-- The buffer `b` is still owned by the call; all others are accounted for. -/
structure Working (traffic : Traffic) (b : ℕ) : Prop where
  made : b < traffic.made
  owned : traffic.uses b = 0
  others : ∀ c < traffic.made, c ≠ b → traffic.uses c = 1
  fresh : ∀ c, traffic.made ≤ c → traffic.uses c = 0

section Ownership

variable {traffic : Traffic} {cloneOk : ℕ → Bool} {skbDev : DevPtr} {b c : ℕ} {p : DevPtr}

@[simp] theorem Traffic.uses_kfreeSkb :
    (traffic.kfreeSkb b).uses c = traffic.uses c + if c = b then 1 else 0 := by
  simp only [uses, kfreeSkb, List.count_cons, beq_iff_eq, eq_comm (a := b)]
  omega

@[simp] theorem Traffic.uses_meshQueueXmit :
    (traffic.meshQueueXmit b p).uses c = traffic.uses c + if c = b then 1 else 0 := by
  simp only [uses, meshQueueXmit, List.map_cons, List.count_cons, beq_iff_eq, eq_comm (a := b)]
  omega

theorem working_start : Working .start 0 where
  made := Nat.one_pos
  owned := rfl
  others := by
    intro c hc hne
    simp only [start] at hc
    omega
  fresh := fun _ _ => rfl

theorem Working.settle {traffic' : Traffic} (h : Working traffic b)
    (hmade : traffic'.made = traffic.made)
    (huses : ∀ c, traffic'.uses c = traffic.uses c + if c = b then 1 else 0) :
    traffic'.Conserved := by
  intro c hc
  rw [huses]
  by_cases hcb : c = b
  · simp [hcb, h.owned]
  · simp [hcb, h.others c (hmade ▸ hc) hcb]

theorem Working.not_conserved (h : Working traffic b) : ¬traffic.Conserved := by
  intro hall
  have hone := hall b h.made
  have hzero := h.owned
  omega

theorem Working.pass (h : Working traffic b) :
    Working ({ traffic with made := traffic.made + 1 }.meshQueueXmit traffic.made p) b where
  made := Nat.lt_succ_of_lt h.made
  owned := by
    have hne : b ≠ traffic.made := Nat.ne_of_lt h.made
    rw [uses_meshQueueXmit]
    change traffic.uses b + _ = 0
    simpa [hne] using h.owned
  others := by
    intro c hc hcb
    change c < traffic.made + 1 at hc
    rw [uses_meshQueueXmit]
    change traffic.uses c + _ = 1
    by_cases hnew : c = traffic.made
    · simp [hnew, h.fresh]
    · simpa [hnew] using h.others c (by omega) hcb
  fresh := by
    intro c hc
    change traffic.made + 1 ≤ c at hc
    have hne : c ≠ traffic.made := by omega
    rw [uses_meshQueueXmit]
    change traffic.uses c + _ = 0
    simpa [hne] using h.fresh c (by omega)

theorem Working.forward (h : Working traffic b) :
    (fwdForward traffic skbDev b p).Conserved := by
  unfold fwdForward
  split_ifs
  · exact h.settle rfl fun c => uses_meshQueueXmit
  · exact h.settle rfl fun c => uses_kfreeSkb

theorem Working.floodLoop_conserved_iff (ports : List DevPtr) (h : Working traffic b) :
    (fwdFloodLoop cloneOk skbDev b ports traffic).Conserved ↔
      ∃ k, traffic.made ≤ k ∧ k < traffic.made + (ports.filter (shouldDeliver · skbDev)).length ∧
        cloneOk k = false := by
  induction ports generalizing traffic with
  | nil =>
      refine iff_of_false h.not_conserved ?_
      rintro ⟨k, hle, hlt, _⟩
      simp only [List.filter_nil, List.length_nil] at hlt
      omega
  | cons p ports ih =>
      unfold fwdFloodLoop
      cases hp : shouldDeliver p skbDev with
      | false => simpa [hp] using ih h
      | true =>
          simp only [if_true, skbClone, List.filter_cons, hp, List.length_cons]
          cases hclone : cloneOk traffic.made with
          | false =>
              refine iff_of_true (h.settle rfl fun c => ?_) ⟨_, le_refl _, by omega, hclone⟩
              exact uses_kfreeSkb
          | true =>
              simp only [if_true]
              rw [ih h.pass]
              change (∃ k, traffic.made + 1 ≤ k ∧ k < traffic.made + 1 + _ ∧ _) ↔ _
              constructor
              · rintro ⟨k, hle, hlt, hk⟩
                exact ⟨k, by omega, by omega, hk⟩
              · rintro ⟨k, hle, hlt, hk⟩
                have hne : k ≠ traffic.made := by
                  rintro rfl
                  simp [hclone] at hk
                exact ⟨k, by omega, by omega, hk⟩

theorem floodLoop_uses (cloneOk : ℕ → Bool) (skbDev : DevPtr) (ports : List DevPtr) (hcb : c ≠ b)
    (traffic : Traffic) (hc : c < traffic.made) :
    (fwdFloodLoop cloneOk skbDev b ports traffic).uses c = traffic.uses c ∧
      c < (fwdFloodLoop cloneOk skbDev b ports traffic).made := by
  induction ports generalizing traffic with
  | nil => exact ⟨rfl, hc⟩
  | cons p ports ih =>
      unfold fwdFloodLoop
      cases hp : shouldDeliver p skbDev with
      | false => simpa using ih traffic hc
      | true =>
          simp only [if_true, skbClone]
          cases hclone : cloneOk traffic.made with
          | false =>
              refine ⟨?_, hc⟩
              simp only [Bool.false_eq_true, if_false, uses_kfreeSkb, hcb]
              rfl
          | true =>
              have hne : c ≠ traffic.made := Nat.ne_of_lt hc
              obtain ⟨huses, hmade⟩ := ih
                ({ traffic with made := traffic.made + 1 }.meshQueueXmit traffic.made p)
                (Nat.lt_succ_of_lt hc)
              refine ⟨huses.trans ?_, hmade⟩
              rw [uses_meshQueueXmit]
              simp only [hne, if_false]
              rfl

theorem flood_clone_not_conserved (ports : List DevPtr) :
    ¬(fwdFlood cloneOk ports skbDev 0 true .start).Conserved := by
  have hleak : ∀ traffic : Traffic, traffic.uses 0 = 0 → 0 < traffic.made →
      ¬traffic.Conserved := by
    intro traffic huses hmade hall
    have hone := hall 0 hmade
    omega
  simp only [fwdFlood, if_true, skbClone]
  cases cloneOk start.made with
  | false => exact hleak _ rfl Nat.one_pos
  | true =>
      have hne : (0 : ℕ) ≠ start.made := by decide
      obtain ⟨huses, hmade⟩ := floodLoop_uses cloneOk skbDev ports hne
        { start with made := start.made + 1 } (by decide)
      exact hleak _ (huses.trans rfl) hmade

end Ownership

/-- What the second half of the handler accounts for: a frame without a device, one for a
known destination, and one that is flooded but runs out of clones on the way. -/
def FinishAccounted (cloneOk : ℕ → Bool) (mgr : MeshMgr) (skb : Skb) (known : Prop) : Prop :=
  match skb.dev with
  | none => True
  | some skbDev => (mgr.devs skbDev).attached = true ∧ isMulticast skb.addr1 = false ∧
      (known ∨ ∃ k, 1 ≤ k ∧ k < 1 + (mgr.ports.filter (shouldDeliver · skbDev)).length ∧
        cloneOk k = false)

/-- The destination has an entry that has not expired. If it is the source as well, this is the
entry that learning makes of what there was. -/
def Known (env : Env) (table : MeshFwdTable) (dev : DevPtr) (skb : Skb) : Prop :=
  ∃ item, table.hasExpired env.now item = false ∧
    (if skb.addr1 = skb.addr2 then
      entryAfter env.now env.room dev skb.addr2 false false (table.entry skb.addr2)
    else table.entry skb.addr1) = some item

/-- The frames whose buffers are all accounted for. -/
def Accounted (env : Env) (cloneOk : ℕ → Bool) (mgr : MeshMgr) (skb : Skb) :
    Option DevPtr → Prop
  | none => True
  | some dev => (mgr.devs dev).up = false ∨ isMulticast skb.addr2 = true ∨
      (mgr.devs dev).attached = true ∧
        FinishAccounted cloneOk mgr skb (Known env mgr.fwdTable dev skb)

theorem finish_conserved_iff (env : Env) (cloneOk : ℕ → Bool) (mgr : MeshMgr) (skb : Skb) :
    (∃ done, handleFrameFinish env cloneOk mgr skb = some done ∧ done.2.Conserved) ↔
      FinishAccounted cloneOk mgr skb (mgr.fwdTable.liveEntry env.now skb.addr1 ≠ none) := by
  unfold handleFrameFinish FinishAccounted
  cases skb.dev with
  | none => exact iff_of_true ⟨_, rfl, working_start.settle rfl fun c => uses_kfreeSkb⟩ trivial
  | some skbDev =>
      cases hatt : (mgr.devs skbDev).attached with
      | false => simp [hatt]
      | true =>
          cases hmulti : isMulticast skb.addr1 with
          | true => simp [hatt, flood_clone_not_conserved]
          | false =>
              rcases meshFwdDbGet_entry env.now mgr.fwdTable skb.addr1 with
                ⟨p, item, hget, hat, hlive⟩ | ⟨hget, hlive⟩
              · have hput := meshFwdDbPut_hold hat.linked
                simp [hatt, hget, hlive, hat.2, hput, working_start.forward]
              · have hflood : (fwdFloodLoop cloneOk skbDev 0 mgr.ports start).Conserved ↔
                    ∃ k, 1 ≤ k ∧ k < 1 + (mgr.ports.filter (shouldDeliver · skbDev)).length ∧
                      cloneOk k = false := working_start.floodLoop_conserved_iff mgr.ports
                simpa [hatt, hget, hlive, fwdFlood] using hflood

theorem known_iff (env : Env) (mgr : MeshMgr) (dev : DevPtr) (skb : Skb) :
    Known env mgr.fwdTable dev skb ↔
      (learn env mgr dev skb.addr2).fwdTable.liveEntry env.now skb.addr1 ≠ none := by
  have hlearnt : (learn env mgr dev skb.addr2).fwdTable =
      meshFwdDbInsert env.now env.room mgr.fwdTable dev skb.addr2 false false := rfl
  have hexpired : ∀ item, (learn env mgr dev skb.addr2).fwdTable.hasExpired env.now item =
      mgr.fwdTable.hasExpired env.now item := by
    intro item
    have hcases := meshFwdDbInsert_cases env.now env.room mgr.fwdTable dev skb.addr2 false false
    rw [hlearnt]
    generalize
    meshFwdDbInsert env.now env.room mgr.fwdTable dev skb.addr2 false false = table at hcases
    cases hcases <;> rfl
  unfold Known liveEntry
  simp only [hexpired]
  rw [hlearnt, entry_meshFwdDbInsert]
  generalize (if skb.addr1 = skb.addr2 then _ else _ : Option MeshFwdItem) = found
  cases found <;> simp [Option.filter]

/-- A frame's buffers are each released or handed on once exactly in the accounted
cases. -/
theorem conserved_iff_accounted (env : Env) (cloneOk : ℕ → Bool) (mgr : MeshMgr) (skb : Skb)
    (dev : Option DevPtr) :
    (∃ res mgr' traffic, handleFrame env cloneOk mgr skb dev = some (res, mgr', traffic) ∧
      traffic.Conserved) ↔ Accounted env cloneOk mgr skb dev := by
  have hfree : (Traffic.start.kfreeSkb 0).Conserved :=
    working_start.settle rfl fun c => uses_kfreeSkb
  unfold handleFrame Accounted
  cases dev with
  | none => exact iff_of_true ⟨_, _, _, rfl, hfree⟩ trivial
  | some dev =>
      have hfinish := finish_conserved_iff env cloneOk (learn env mgr dev skb.addr2) skb
      rw [← known_iff] at hfinish
      dsimp only
      cases (mgr.devs dev).up with
      | false => simp [hfree]
      | true =>
          cases isMulticast skb.addr2 with
          | true => simp [hfree]
          | false =>
              cases (mgr.devs dev).attached with
              | false => simp
              | true =>
                  simp only [Bool.not_true, Bool.or_self, Bool.false_eq_true, if_false,
                    Option.bind_eq_bind, Option.bind_eq_some_iff, Option.pure_def,
                    Option.some.injEq, Prod.mk.injEq, false_or, true_and, reduceCtorEq]
                  refine Iff.trans ?_ hfinish
                  constructor
                  · rintro ⟨res, mgr', traffic, ⟨done, hdone, _, rfl⟩, hcons⟩
                    exact ⟨_, hdone, hcons⟩
                  · rintro ⟨⟨mgr', traffic⟩, hdone, hcons⟩
                    exact ⟨0, mgr', traffic, ⟨_, hdone, rfl, rfl⟩, hcons⟩

instance (traffic : Traffic) : Decidable traffic.Conserved :=
  inferInstanceAs (Decidable (∀ b < traffic.made, traffic.uses b = 1))

/-- A frame for an unknown station comes in on port 1: a clone goes out by port 2, and
the frame itself is leaked. -/
theorem flood_leaks_frame : ∃ res mgr' traffic,
    handleFrame ⟨0, true⟩ (fun _ => true) twoPorts ⟨some 1, stationMac 9, stationMac 7⟩ (some 1) =
      some (res, mgr', traffic) ∧ traffic.sent = [(1, 2)] ∧ ¬traffic.Conserved := by
  have hrun : (handleFrame ⟨0, true⟩ (fun _ => true) twoPorts ⟨some 1, stationMac 9, stationMac 7⟩
      (some 1)).any (fun r => decide (r.2.2.sent = [(1, 2)] ∧ ¬r.2.2.Conserved)) = true := by
    decide +kernel
  obtain ⟨⟨res, mgr', traffic⟩, hframe, hdone⟩ := (Option.any_eq_true _ _).mp hrun
  exact ⟨res, mgr', traffic, hframe, of_decide_eq_true hdone⟩

end Mesh
end WirelessMesh
