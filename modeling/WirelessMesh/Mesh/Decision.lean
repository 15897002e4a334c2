import WirelessMesh.Mesh.Forward

/-!
# Where a frame goes

`mesh_fwd_handle_frame` records the source of a frame and then decides by the table where
the frame goes.
-/

namespace WirelessMesh
namespace Mesh

open MeshFwdTable

/-! ## Sending -/

/-- The call sent one buffer to each of `dests`, in this order, and no buffer twice. -/
structure Copies (traffic : Traffic) (dests : List DevPtr) : Prop where
  dests : traffic.sent.reverse.map Prod.snd = dests
  distinct : (traffic.sent.map Prod.fst).Nodup
  made : ∀ c ∈ traffic.sent, c.1 < traffic.made

section Send

variable {traffic : Traffic} {dests : List DevPtr} {skbDev : DevPtr}

theorem Copies.mem (h : Copies traffic dests) {c : ℕ × DevPtr} (hc : c ∈ traffic.sent) :
    c.2 ∈ dests := by
  rw [← h.dests]
  exact List.mem_map_of_mem (List.mem_reverse.mpr hc)

theorem Copies.floodLoop (h : Copies traffic dests) (b : ℕ) (ports : List DevPtr) :
    Copies (fwdFloodLoop (fun _ => true) skbDev b ports traffic)
      (dests ++ ports.filter (shouldDeliver · skbDev)) := by
  induction ports generalizing traffic dests with
  | nil => simpa [fwdFloodLoop] using h
  | cons p ports ih =>
      cases hp : shouldDeliver p skbDev with
      | false =>
          rw [fwdFloodLoop, hp, List.filter_cons_of_neg (by simp [hp])]
          exact ih h
      | true =>
          -- The clone gets a number no buffer had before.
          have hpass :
              Copies ({ traffic with made := traffic.made + 1 }.meshQueueXmit traffic.made p)
              (dests ++ [p]) := by
            refine ⟨?_, ?_, ?_⟩
            · simp [Traffic.meshQueueXmit, ← h.dests]
            · refine List.nodup_cons.mpr ⟨fun hmem => ?_, h.distinct⟩
              obtain ⟨c, hc, heq⟩ := List.mem_map.mp hmem
              have hlt := h.made c hc
              omega
            · intro c hc
              change c.1 < traffic.made + 1
              rcases List.mem_cons.mp hc with rfl | hc
              · exact Nat.lt_succ_self _
              · exact Nat.lt_succ_of_lt (h.made c hc)
          have hrest := ih hpass
          rw [List.append_assoc, List.singleton_append] at hrest
          simpa [fwdFloodLoop, hp, Traffic.skbClone] using hrest

theorem copies_start : Copies .start [] where
  dests := rfl
  distinct := List.nodup_nil
  made := by simp [Traffic.start]

theorem copies_fwdFlood (clone : Bool) (ports : List DevPtr) :
    Copies (fwdFlood (fun _ => true) ports skbDev 0 clone .start)
      (ports.filter (shouldDeliver · skbDev)) := by
  have hone : Copies { Traffic.start with made := Traffic.start.made + 1 } [] :=
    ⟨rfl, List.nodup_nil, by simp [Traffic.start]⟩
  cases clone with
  | false => exact copies_start.floodLoop 0 ports
  | true => exact hone.floodLoop _ ports

theorem copies_fwdForward (dest : DevPtr) :
    Copies (fwdForward .start skbDev 0 dest) (if dest = skbDev then [] else [dest]) := by
  by_cases hdest : dest = skbDev
  · rw [if_pos hdest]
    simp only [fwdForward, shouldDeliver, hdest, bne_self_eq_false, Bool.false_eq_true, if_false]
    exact ⟨rfl, List.nodup_nil, by simp [Traffic.start, Traffic.kfreeSkb]⟩
  · rw [if_neg hdest]
    simp only [fwdForward, shouldDeliver, bne_iff_ne, ne_eq, hdest, not_false_eq_true, if_true]
    exact ⟨rfl, by simp [Traffic.start, Traffic.meshQueueXmit],
      by simp [Traffic.start, Traffic.meshQueueXmit]⟩

end Send

/-! ## The decision -/

/-- What one frame that came in by `dev` does to the entries and where it goes. -/
structure Decided (env : Env) (mgr : MeshMgr) (skb : Skb) (dev : DevPtr) (mgr' : MeshMgr)
    (traffic : Traffic) : Prop where
  /-- The source is recorded, unless it is local or static, or new without memory for it. -/
  recorded : (∀ item, mgr.fwdTable.entry skb.addr2 = some item →
      item.isLocal = false ∧ item.isStatic = false) →
    (mgr.fwdTable.entry skb.addr2 = none → env.room = true) →
    ∃ item, mgr'.fwdTable.entry skb.addr2 = some item ∧ item.dest = dev ∧
      item.ageingTimer = env.now
  shielded : ∀ item, mgr.fwdTable.entry skb.addr2 = some item →
    item.isLocal = true ∨ item.isStatic = true → mgr'.fwdTable.entry skb.addr2 = some item
  others : ∀ addr ≠ skb.addr2, mgr'.fwdTable.entry addr = mgr.fwdTable.entry addr
  flooded : isMulticast skb.addr1 = true ∨ mgr'.fwdTable.liveEntry env.now skb.addr1 = none →
    Copies traffic (mgr.ports.filter (· != dev))
  forwarded : isMulticast skb.addr1 = false → ∀ item,
    mgr'.fwdTable.liveEntry env.now skb.addr1 = some item →
      Copies traffic (if item.dest = dev then [] else [item.dest])
  notBack : ∀ c ∈ traffic.sent, c.2 ≠ dev

section Decide

variable {env : Env} {mgr : MeshMgr} {skb : Skb} {dev : DevPtr}

theorem handleFrameFinish_copies (env : Env) (mgr : MeshMgr) (hdev : skb.dev = some dev)
    (hatt : (mgr.devs dev).attached = true) :
    ∃ traffic, handleFrameFinish env (fun _ => true) mgr skb = some (mgr, traffic) ∧
      (isMulticast skb.addr1 = true ∨ mgr.fwdTable.liveEntry env.now skb.addr1 = none →
        Copies traffic (mgr.ports.filter (· != dev))) ∧
      (isMulticast skb.addr1 = false → ∀ item,
        mgr.fwdTable.liveEntry env.now skb.addr1 = some item →
          Copies traffic (if item.dest = dev then [] else [item.dest])) := by
  simp only [handleFrameFinish, hdev, hatt, Bool.not_true, Bool.false_eq_true, if_false]
  cases hmulti : isMulticast skb.addr1 with
  | true => exact ⟨_, rfl, fun _ => copies_fwdFlood true mgr.ports, by simp⟩
  | false =>
      rcases meshFwdDbGet_entry env.now mgr.fwdTable skb.addr1 with
        ⟨p, item, hget, hat, hlive⟩ | ⟨hget, hlive⟩
      · refine ⟨fwdForward .start dev 0 item.dest, ?_, ?_, ?_⟩
        · simp [hget, hat.2, meshFwdDbPut_hold hat.linked]
        · simp [hlive]
        · intro _ other hother
          obtain rfl := Option.some.inj (hlive.symm.trans hother)
          exact copies_fwdForward item.dest
      · refine ⟨fwdFlood (fun _ => true) mgr.ports dev 0 false .start, ?_, ?_, ?_⟩
        · simp [hget]
        · exact fun _ => copies_fwdFlood false mgr.ports
        · simp [hlive]

theorem entryAfter_of_dynamic {item : MeshFwdItem} (source : DevPtr) (addr : Mac)
    (hlocal : item.isLocal = false) (hstatic : item.isStatic = false) :
    entryAfter env.now env.room source addr false false (some item) =
      some { item with
        dest := source, isLocal := false, isStatic := false, ageingTimer := env.now } := by
  simp [entryAfter, possiblyReplace, hlocal, hstatic]

/-- A frame with a unicast source that comes in by a port which is up is learnt from, as far
as memory goes, and sent where the table says. -/
theorem frame_decided (env : Env) (hatt : (mgr.devs dev).attached = true)
    (hup : (mgr.devs dev).up = true) (hsource : isMulticast skb.addr2 = false)
    (hdev : skb.dev = some dev) : ∃ mgr' traffic,
    handleFrame env (fun _ => true) mgr skb (some dev) = some (0, mgr', traffic) ∧
      Decided env mgr skb dev mgr' traffic := by
  have hentry := entry_meshFwdDbInsert env.now env.room mgr.fwdTable dev skb.addr2 false false
  obtain ⟨traffic, hfinish, hflood, hforward⟩ :=
    handleFrameFinish_copies env (learn env mgr dev skb.addr2) hdev hatt
  refine ⟨learn env mgr dev skb.addr2, traffic, ?_, ?_⟩
  · simp [handleFrame, hatt, hup, hsource, hfinish]
  · refine ⟨?_, ?_, ?_, hflood, hforward, ?_⟩
    · intro hdynamic hroom
      have hsrc := hentry skb.addr2
      rw [if_pos rfl] at hsrc
      cases hold : mgr.fwdTable.entry skb.addr2 with
      | none =>
          rw [hold, entryAfter, if_pos (hroom hold)] at hsrc
          exact ⟨_, hsrc, rfl, rfl⟩
      | some item =>
          obtain ⟨hlocal, hstatic⟩ := hdynamic item hold
          rw [hold, entryAfter_of_dynamic dev skb.addr2 hlocal hstatic] at hsrc
          exact ⟨_, hsrc, rfl, rfl⟩
    · intro item hold hfixed
      have hsrc := hentry skb.addr2
      rw [if_pos rfl, hold] at hsrc
      refine hsrc.trans ?_
      rcases hfixed with hlocal | hstatic
      · simp [entryAfter, hlocal]
      · simp [entryAfter, possiblyReplace, hstatic]
    · intro addr hne
      have hother := hentry addr
      rwa [if_neg hne] at hother
    · intro c hc hback
      by_cases hflooded : isMulticast skb.addr1 = true ∨
          (learn env mgr dev skb.addr2).fwdTable.liveEntry env.now skb.addr1 = none
      · have hmem := (hflood hflooded).mem hc
        simp [hback] at hmem
      · obtain ⟨hmulti, hsome⟩ := not_or.mp hflooded
        obtain ⟨item, hlive⟩ := Option.ne_none_iff_exists'.mp hsome
        have hmem := (hforward (by simpa using hmulti) item hlive).mem hc
        split_ifs at hmem with hdest
        · cases hmem
        · exact hdest ((List.mem_singleton.mp hmem).symm.trans hback)

end Decide

def strangers : Skb := ⟨some 1, stationMac 9, stationMac 7⟩

/-- It is sent out by port 2, and station 7 is recorded at port 1. -/
theorem frame_decided_strangers : ∃ mgr' traffic,
    handleFrame ⟨0, true⟩ (fun _ => true) twoPorts strangers (some 1) = some (0, mgr', traffic) ∧
    Decided ⟨0, true⟩ twoPorts strangers 1 mgr' traffic ∧
    (∃ item, mgr'.fwdTable.entry (stationMac 7) = some item ∧ item.dest = 1) ∧
    traffic.sent.reverse.map Prod.snd = [2] := by
  have hnew : twoPorts.fwdTable.entry (stationMac 7) = none := by decide +kernel
  have hunknown : twoPorts.fwdTable.entry (stationMac 9) = none := by decide +kernel
  have hatt : (twoPorts.devs 1).attached = true := by decide
  obtain ⟨mgr', traffic, hframe, hdecided⟩ := frame_decided ⟨0, true⟩ hatt (by decide)
    (by decide : isMulticast strangers.addr2 = false) rfl
  refine ⟨mgr', traffic, hframe, hdecided, ?_, ?_⟩
  · obtain ⟨item, hentry, hdest, _⟩ := hdecided.recorded
      (fun item hold => absurd (hnew.symm.trans hold) (by simp)) (fun _ => rfl)
    exact ⟨item, hentry, hdest⟩
  · have hlive : mgr'.fwdTable.liveEntry 0 (stationMac 9) = none := by
      rw [MeshFwdTable.liveEntry, hdecided.others (stationMac 9) (by decide), hunknown]
      rfl
    exact (hdecided.flooded (.inr hlive)).dests.trans (by decide)

/-- Without memory for an item a new station is not recorded. -/
theorem source_not_recorded : ∃ mgr' traffic,
    handleFrame ⟨0, false⟩ (fun _ => true) twoPorts strangers (some 1) = some (0, mgr', traffic) ∧
    twoPorts.fwdTable.entry (stationMac 7) = none ∧
    mgr'.fwdTable.entry (stationMac 7) = none := by
  have hrun : (handleFrame ⟨0, false⟩ (fun _ => true) twoPorts strangers (some 1)).any
      (fun r => decide (r.1 = 0 ∧ r.2.1.fwdTable.entry (stationMac 7) = none)) = true := by
    decide +kernel
  obtain ⟨⟨res, mgr', traffic⟩, hframe, hdone⟩ := (Option.any_eq_true _ _).mp hrun
  obtain ⟨rfl, hnone⟩ := of_decide_eq_true hdone
  exact ⟨mgr', traffic, hframe, by decide +kernel, hnone⟩

end Mesh
end WirelessMesh
