import WirelessMesh.Vmac.Aloha
import Mathlib.Tactic.Common

/-!
# What the aloha MAC does with its packets

The transmit side passes every packet to the hardware once and in order, whatever the calls are.
The receive side does the same as long as the bottom half of `valoha_rx` is only called with an
empty queue: otherwise it hands up the packet of the call for every packet of the queue.
-/

namespace WirelessMesh
namespace Vmac

open QueueDrain

variable {ι : Type*}

@[simp]
theorem macRot128_macRot128 (data : List (BitVec 8)) : macRot128 (macRot128 data) = data := by
  have hbyte : ∀ byte : BitVec 8,
      BitVec.ofNat 8 (((BitVec.ofNat 8 ((byte.toNat + 128) % 256)).toNat + 128) % 256) = byte := by
    intro byte
    apply BitVec.eq_of_toNat_eq
    simp only [BitVec.toNat_ofNat]
    have := byte.isLt
    omega
  rw [macRot128, macRot128, List.map_map]
  exact List.map_id'' hbyte data

/-! ## What should become of a packet -/

section Outcomes

variable (conf : AlohaConf)

def payload (data : List (BitVec 8)) : List (BitVec 8) :=
  if conf.useCrypto then macRot128 data else data

def rxOutcome (p : ι) (skb : SkBuff) : RxOutcome ι :=
  if conf.myrxfunc then .received (some p) (payload conf skb.data) else .freed (some p)

def txOutcome (p : ι) (skb : SkBuff) : TxOutcome ι where
  maxinflight := conf.maxinflight
  packet := p
  contents :=
    { data := payload conf skb.data
      cb := if conf.attached then athSetTxBitrate conf.txbitrate (athSetDefaultPhyProps skb.cb)
        else skb.cb }

end Outcomes

def RxOutcome.packet : RxOutcome ι → Option ι
  | .received packet _ => packet
  | .freed packet => packet

namespace AlohaState

variable {conf : AlohaConf} {s : AlohaState ι} {given : List (ι × SkBuff)}

/-! ## The queues -/

def enqueueRx (packet : Option ι) (s : AlohaState ι) : AlohaState ι :=
  { s with rxSkbqueue := s.rxSkbqueue ++ packet.toList }

def enqueueTx (packet : Option ι) (s : AlohaState ι) : AlohaState ι :=
  { s with txSkbqueue := s.txSkbqueue ++ packet.toList }

def enqueueDone (packet : Option ι) (s : AlohaState ι) : AlohaState ι :=
  { s with txdoneSkbqueue := s.txdoneSkbqueue ++ packet.toList }

def drainDone (s : AlohaState ι) : AlohaState ι :=
  s.txdoneSkbqueue.foldl freeDone { s with txdoneSkbqueue := [] }

theorem drainDone_eq (s : AlohaState ι) :
    ∃ log, s.drainDone = { s with txdoneSkbqueue := [], doneLog := log } := by
  refine ⟨s.drainDone.doneLog, ?_⟩
  refine foldl_frame (f := fun t : AlohaState ι =>
    { t with doneLog := s.drainDone.doneLog }) ?_ _ _
  exact fun _ _ => rfl

theorem txDone_eq (conf : AlohaConf) (packet : Option ι) (intop : Bool) (s : AlohaState ι) :
    ∃ queue log, (s.txDone conf packet intop).2 =
      { s with txdoneSkbqueue := queue, doneLog := log } ∧
      queue.Sublist (s.txdoneSkbqueue ++ packet.toList) := by
  cases intop with
  | false =>
      obtain ⟨log, hlog⟩ := (s.enqueueDone packet).drainDone_eq
      exact ⟨[], log, hlog, List.nil_sublist _⟩
  | true =>
      cases packet with
      | none => exact ⟨_, _, rfl, List.sublist_append_left _ _⟩
      | some p =>
          cases hdefer : conf.defertxdone with
          | true => exact ⟨_, s.doneLog, by simp [txDone, hdefer], List.Sublist.refl _⟩
          | false =>
              exact ⟨s.txdoneSkbqueue, s.doneLog ++ [p], by simp [txDone, freeDone, hdefer],
                List.sublist_append_left _ _⟩

/-! ## What the calls keep -/

/-- Where packets are not deferred, none is queued between the calls. -/
structure Prompt (conf : AlohaConf) (s : AlohaState ι) : Prop where
  rx_empty : (conf.deferrx || conf.useCrypto) = false → s.rxSkbqueue = []
  tx_empty : (conf.defertx || conf.useCrypto) = false → s.txSkbqueue = []

/-- No packet is queued twice, and the transmit side has handled or kept what it was given. -/
structure Sound (conf : AlohaConf) (s : AlohaState ι) (given : List (ι × SkBuff)) : Prop where
  nodup : s.held.Nodup
  kept : Kept (txOutcome conf) s.mem s.txSkbqueue s.txLog given

def RxKept (conf : AlohaConf) (s : AlohaState ι) (given : List (ι × SkBuff)) : Prop :=
  Kept (rxOutcome conf) s.mem s.rxSkbqueue s.rxLog given

theorem notMem_tx_of_mem_rx (h : s.held.Nodup) {p : ι} (hp : p ∈ s.rxSkbqueue) :
    p ∉ s.txSkbqueue := by
  have hboth := (List.nodup_append'.mp h).1
  exact (List.nodup_append'.mp hboth).2.2 hp

theorem nodup_held_enqueueRx (h : s.held.Nodup) {packet : Option ι}
    (hfresh : ∀ p ∈ packet, p ∉ s.held) : (s.enqueueRx packet).held.Nodup := by
  rw [held, List.append_assoc] at h hfresh
  rw [held, List.append_assoc]
  exact nodup_insert h hfresh

theorem nodup_held_enqueueTx (h : s.held.Nodup) {packet : Option ι}
    (hfresh : ∀ p ∈ packet, p ∉ s.held) : (s.enqueueTx packet).held.Nodup := by
  have := nodup_insert h hfresh
  rwa [List.append_assoc s.rxSkbqueue] at this

theorem nodup_held_enqueueDone (h : s.held.Nodup) {packet : Option ι}
    (hfresh : ∀ p ∈ packet, p ∉ s.held) : (s.enqueueDone packet).held.Nodup := by
  rw [← List.append_nil s.held] at h hfresh
  have := nodup_insert h hfresh
  rwa [List.append_nil, held, List.append_assoc] at this

theorem Sound.enqueueRx (h : s.Sound conf given) {packet : Option ι}
    (hfresh : ∀ p ∈ packet, p ∉ s.held) : (s.enqueueRx packet).Sound conf given :=
  ⟨nodup_held_enqueueRx h.nodup hfresh, h.kept⟩

theorem Sound.enqueueTx (h : s.Sound conf given) {packet : Option (ι × SkBuff)}
    (hfresh : ∀ p ∈ packet.map Prod.fst, p ∉ s.held) (hpacket : ∀ p ∈ packet, s.mem p.1 = p.2) :
    (s.enqueueTx (packet.map Prod.fst)).Sound conf (given ++ packet.toList) :=
  ⟨nodup_held_enqueueTx h.nodup hfresh, h.kept.enqueue hpacket⟩

theorem Sound.of_done (h : s.Sound conf given) {queue log : List ι}
    (hqueue : queue.Sublist s.txdoneSkbqueue) :
    ({ s with txdoneSkbqueue := queue, doneLog := log } : AlohaState ι).Sound conf given :=
  ⟨h.nodup.sublist (hqueue.append_left _), h.kept⟩

theorem Sound.txDone (h : s.Sound conf given) {packet : Option ι}
    (hfresh : ∀ p ∈ packet, p ∉ s.held) (intop : Bool) :
    (s.txDone conf packet intop).2.Sound conf given := by
  obtain ⟨queue, log, heq, hsub⟩ := txDone_eq conf packet intop s
  have hqueued : (s.enqueueDone packet).Sound conf given :=
    ⟨nodup_held_enqueueDone h.nodup hfresh, h.kept⟩
  rw [heq]
  exact hqueued.of_done hsub

theorem Prompt.txDone (h : s.Prompt conf) (packet : Option ι) (intop : Bool) :
    (s.txDone conf packet intop).2.Prompt conf := by
  obtain ⟨queue, log, heq, -⟩ := txDone_eq conf packet intop s
  rw [heq]
  exact ⟨h.rx_empty, h.tx_empty⟩

theorem RxKept.txDone (h : s.RxKept conf given) (packet : Option ι) (intop : Bool) :
    (s.txDone conf packet intop).2.RxKept conf given := by
  obtain ⟨queue, log, heq, -⟩ := txDone_eq conf packet intop s
  rw [heq]
  exact h

variable [DecidableEq ι]

/-! ## One packet -/

theorem mem_receiveOne (packet : Option ι) (s : AlohaState ι) {skb q : ι} (h : q ≠ skb) :
    (s.receiveOne conf packet skb).mem q = s.mem q := by
  cases hrx : conf.myrxfunc <;> cases hc : conf.useCrypto <;>
    simp [receiveOne, callRxfunc, freeRx, rot128, edit, hrx, hc, h]

theorem receiveOne_handles :
    Handles AlohaState.mem AlohaState.rxLog (rxOutcome conf)
      fun (s : AlohaState ι) skb => s.receiveOne conf (some skb) skb where
  log_eq s p := by
    cases hrx : conf.myrxfunc <;> cases hc : conf.useCrypto <;>
      simp [receiveOne, rxOutcome, payload, callRxfunc, freeRx, rot128, edit, hrx, hc]
  contents_eq s p q h := mem_receiveOne _ s h

theorem receiveOne_handles_packet (packet : Option ι) :
    Handles AlohaState.mem (fun s => s.rxLog.map RxOutcome.packet) (fun _ _ => packet)
      fun (s : AlohaState ι) skb => s.receiveOne conf packet skb where
  log_eq s p := by
    cases hrx : conf.myrxfunc <;> cases hc : conf.useCrypto <;>
      simp [receiveOne, callRxfunc, freeRx, rot128, edit, RxOutcome.packet, hrx, hc]
  contents_eq s p q h := mem_receiveOne _ s h

theorem transmitOne_handles :
    Handles AlohaState.mem AlohaState.txLog (txOutcome conf)
      fun (s : AlohaState ι) skb => s.transmitOne conf skb where
  log_eq s p := by
    cases ha : conf.attached <;> cases hc : conf.useCrypto <;>
      simp [transmitOne, txOutcome, payload, sendpacket, prepSkb, rot128, edit, ha, hc]
  contents_eq s p q h := by
    cases ha : conf.attached <;> cases hc : conf.useCrypto <;>
      simp [transmitOne, sendpacket, prepSkb, rot128, edit, ha, hc, h]

theorem workTransmitOne_eq (conf : AlohaConf) :
    (workTransmitOne conf : AlohaState ι → ι → AlohaState ι) = transmitOne conf := by
  funext s p
  cases ha : conf.attached <;> cases hc : conf.useCrypto <;>
    simp [workTransmitOne, transmitOne, sendpacket, prepSkb, rot128, edit, ha, hc]

/-! ## The loops -/

/-- The loop over the receive queue, which hands up one packet for each packet it takes out. -/
def drainRx (conf : AlohaConf) (handed : ι → Option ι) (s : AlohaState ι) : AlohaState ι :=
  s.rxSkbqueue.foldl (fun s skb => s.receiveOne conf (handed skb) skb) { s with rxSkbqueue := [] }

def drainTx (conf : AlohaConf) (s : AlohaState ι) : AlohaState ι :=
  s.txSkbqueue.foldl (transmitOne conf) { s with txSkbqueue := [] }

/-- The receive loop changes the packets of its queue and the log of the receive side only. -/
theorem drainRx_eq (handed : ι → Option ι) (s : AlohaState ι) :
    s.drainRx conf handed = { s with
      rxSkbqueue := []
      mem := (s.drainRx conf handed).mem
      rxLog := (s.drainRx conf handed).rxLog } := by
  refine foldl_frame (f := fun t : AlohaState ι => { t with
    mem := (s.drainRx conf handed).mem, rxLog := (s.drainRx conf handed).rxLog }) ?_ _ _
  intro t p
  cases hrx : conf.myrxfunc <;> cases hc : conf.useCrypto <;>
    simp [receiveOne, callRxfunc, freeRx, rot128, edit, hrx, hc]

theorem mem_drainRx (handed : ι → Option ι) {q : ι} (hq : q ∉ s.rxSkbqueue) :
    (s.drainRx conf handed).mem q = s.mem q := by
  refine foldl_apply_of_notMem AlohaState.mem ?_ hq _
  exact fun t _ _ h => mem_receiveOne _ t h

/-- The transmit loop changes the packets of its queue and the log of the transmit side only. -/
theorem drainTx_eq (s : AlohaState ι) :
    s.drainTx conf = { s with
      txSkbqueue := []
      mem := (s.drainTx conf).mem
      txLog := (s.drainTx conf).txLog } := by
  refine foldl_frame (f := fun t : AlohaState ι => { t with
    mem := (s.drainTx conf).mem, txLog := (s.drainTx conf).txLog }) ?_ _ _
  intro t p
  cases ha : conf.attached <;> cases hc : conf.useCrypto <;>
    simp [transmitOne, sendpacket, prepSkb, rot128, edit, ha, hc]

theorem mem_drainTx {q : ι} (hq : q ∉ s.txSkbqueue) : (s.drainTx conf).mem q = s.mem q :=
  foldl_apply_of_notMem AlohaState.mem transmitOne_handles.contents_eq hq _

/-! ## The entry points as enqueueing and emptying -/

/-- Where packets are not deferred, the top half does what the bottom half does. -/
theorem rx_eq (packet : Option ι) (intop : Bool)
    (hempty : (conf.deferrx || conf.useCrypto) = false → s.rxSkbqueue = []) :
    (s.rx conf packet intop).2 =
      if intop && (conf.deferrx || conf.useCrypto) then s.enqueueRx packet
      else (s.enqueueRx packet).drainRx conf fun _ => packet := by
  cases intop with
  | false => rfl
  | true =>
      cases hdefer : conf.deferrx || conf.useCrypto with
      | true => cases packet <;> simp [rx, enqueueRx, hdefer]
      | false =>
          obtain ⟨hrxdefer, hcrypto⟩ := Bool.or_eq_false_iff.mp hdefer
          have hqueue : s = { s with rxSkbqueue := [] } := by rw [← hempty hdefer]
          rw [hqueue]
          cases packet <;> cases hrx : conf.myrxfunc <;>
            simp [rx, enqueueRx, drainRx, receiveOne, callRxfunc, freeRx, hrxdefer, hcrypto, hrx]

theorem tx_eq (packet : Option ι) (intop : Bool)
    (hempty : (conf.defertx || conf.useCrypto) = false → s.txSkbqueue = []) :
    (s.tx conf packet intop).2 =
      { (if intop && (conf.defertx || conf.useCrypto) then s.enqueueTx packet
        else (s.enqueueTx packet).drainTx conf) with
        scheduled := (s.tx conf packet intop).2.scheduled } := by
  cases intop with
  | false => rfl
  | true =>
      cases hdefer : conf.defertx || conf.useCrypto with
      | true => cases packet <;> simp [tx, enqueueTx, hdefer]
      | false =>
          obtain ⟨htxdefer, hcrypto⟩ := Bool.or_eq_false_iff.mp hdefer
          have hqueue : s = { s with txSkbqueue := [] } := by rw [← hempty hdefer]
          rw [hqueue]
          cases packet <;> simp [tx, enqueueTx, drainTx, transmitOne, htxdefer, hcrypto]

theorem work_eq : (s.work conf).2 = ((s.drainRx conf some).drainTx conf).drainDone := by
  rw [work, workTransmitOne_eq]
  rfl

theorem Sound.drainRx (h : s.Sound conf given) (handed : ι → Option ι) :
    (s.drainRx conf handed).Sound conf given := by
  rw [drainRx_eq]
  constructor
  · refine h.nodup.sublist ?_
    exact ((List.nil_sublist _).append_right _).append_right _
  · refine h.kept.frame ?_
    intro p hp
    exact mem_drainRx handed fun hrx => notMem_tx_of_mem_rx h.nodup hrx hp

theorem Sound.drainTx (h : s.Sound conf given) : (s.drainTx conf).Sound conf given := by
  have hnodup : s.txSkbqueue.Nodup :=
    h.nodup.sublist ((List.sublist_append_right _ _).trans (List.sublist_append_left _ _))
  have hkept := transmitOne_handles.kept_foldl (s := { s with txSkbqueue := [] }) hnodup h.kept
  rw [drainTx_eq]
  refine ⟨h.nodup.sublist ?_, hkept⟩
  exact ((List.nil_sublist _).append_left _).append_right _

theorem RxKept.drainRx (h : s.RxKept conf given) (hnodup : s.held.Nodup) :
    (s.drainRx conf some).RxKept conf given := by
  have hqueue : s.rxSkbqueue.Nodup :=
    hnodup.sublist ((List.sublist_append_left _ _).trans (List.sublist_append_left _ _))
  have hkept := receiveOne_handles.kept_foldl (s := { s with rxSkbqueue := [] }) hqueue h
  rw [drainRx_eq]
  exact hkept

theorem RxKept.drainTx (h : s.RxKept conf given) (hnodup : s.held.Nodup) :
    (s.drainTx conf).RxKept conf given := by
  rw [drainTx_eq]
  refine h.frame ?_
  intro p hp
  exact mem_drainTx (notMem_tx_of_mem_rx hnodup hp)

/-! ## The entry points -/

theorem Sound.rx (h : s.Sound conf given) (hprompt : s.Prompt conf) {packet : Option ι}
    (hfresh : ∀ p ∈ packet, p ∉ s.held) (intop : Bool) :
    (s.rx conf packet intop).2.Sound conf given := by
  rw [rx_eq packet intop hprompt.rx_empty]
  split
  · exact h.enqueueRx hfresh
  · exact (h.enqueueRx hfresh).drainRx _

theorem Sound.tx (h : s.Sound conf given) (hprompt : s.Prompt conf)
    {packet : Option (ι × SkBuff)} (hfresh : ∀ p ∈ packet.map Prod.fst, p ∉ s.held)
    (hpacket : ∀ p ∈ packet, s.mem p.1 = p.2) (intop : Bool) :
    (s.tx conf (packet.map Prod.fst) intop).2.Sound conf (given ++ packet.toList) := by
  have hqueued := h.enqueueTx hfresh hpacket
  rw [tx_eq _ intop hprompt.tx_empty]
  split
  · exact ⟨hqueued.nodup, hqueued.kept⟩
  · exact ⟨hqueued.drainTx.nodup, hqueued.drainTx.kept⟩

theorem Sound.work (h : s.Sound conf given) : (s.work conf).2.Sound conf given := by
  rw [work_eq]
  obtain ⟨log, hlog⟩ := ((s.drainRx conf some).drainTx conf).drainDone_eq
  rw [hlog]
  exact (h.drainRx some).drainTx.of_done (List.nil_sublist _)

theorem Prompt.rx (h : s.Prompt conf) (packet : Option ι) (intop : Bool) :
    (s.rx conf packet intop).2.Prompt conf := by
  rw [rx_eq packet intop h.rx_empty]
  split
  · rename_i hdefer
    refine ⟨fun hno => ?_, h.tx_empty⟩
    rw [hno, Bool.and_false] at hdefer
    cases hdefer
  · rw [drainRx_eq]
    exact ⟨fun _ => rfl, h.tx_empty⟩

theorem Prompt.tx (h : s.Prompt conf) (packet : Option ι) (intop : Bool) :
    (s.tx conf packet intop).2.Prompt conf := by
  rw [tx_eq packet intop h.tx_empty]
  split
  · rename_i hdefer
    refine ⟨h.rx_empty, fun hno => ?_⟩
    rw [hno, Bool.and_false] at hdefer
    cases hdefer
  · rw [drainTx_eq]
    exact ⟨h.rx_empty, fun _ => rfl⟩

theorem Prompt.work : (s.work conf).2.Prompt conf := by
  rw [work_eq]
  obtain ⟨log, hlog⟩ := ((s.drainRx conf some).drainTx conf).drainDone_eq
  rw [hlog, drainTx_eq, drainRx_eq]
  exact ⟨fun _ => rfl, fun _ => rfl⟩

theorem RxKept.rx (h : s.RxKept conf given) (hprompt : s.Prompt conf) (hnodup : s.held.Nodup)
    {packet : Option (ι × SkBuff)} (hfresh : ∀ p ∈ packet.map Prod.fst, p ∉ s.held)
    (hpacket : ∀ p ∈ packet, s.mem p.1 = p.2) {intop : Bool}
    (hempty : intop = false → s.rxSkbqueue = []) :
    (s.rx conf (packet.map Prod.fst) intop).2.RxKept conf (given ++ packet.toList) := by
  have hqueued : (s.enqueueRx (packet.map Prod.fst)).RxKept conf (given ++ packet.toList) :=
    h.enqueue hpacket
  rw [rx_eq _ intop hprompt.rx_empty]
  split
  · exact hqueued
  · rename_i hnow
    have hnil : s.rxSkbqueue = [] := by
      cases intop with
      | false => exact hempty rfl
      | true => exact hprompt.rx_empty (by simpa using hnow)
    have hsame : ((s.enqueueRx (packet.map Prod.fst)).drainRx conf fun _ => packet.map Prod.fst) =
        (s.enqueueRx (packet.map Prod.fst)).drainRx conf some := by
      cases packet <;> simp [AlohaState.drainRx, AlohaState.enqueueRx, hnil]
    rw [hsame]
    exact hqueued.drainRx (nodup_held_enqueueRx hnodup hfresh)

theorem RxKept.tx (h : s.RxKept conf given) (hprompt : s.Prompt conf) (hnodup : s.held.Nodup)
    {packet : Option ι} (hfresh : ∀ p ∈ packet, p ∉ s.held) (intop : Bool) :
    (s.tx conf packet intop).2.RxKept conf given := by
  have hqueued : (s.enqueueTx packet).RxKept conf given := h
  rw [tx_eq packet intop hprompt.tx_empty]
  split
  · exact hqueued
  · exact hqueued.drainTx (nodup_held_enqueueTx hnodup hfresh)

theorem RxKept.work (h : s.RxKept conf given) {sent : List (ι × SkBuff)}
    (hsound : s.Sound conf sent) : (s.work conf).2.RxKept conf given := by
  rw [work_eq]
  obtain ⟨log, hlog⟩ := ((s.drainRx conf some).drainTx conf).drainDone_eq
  rw [hlog]
  exact (h.drainRx hsound.nodup).drainTx (hsound.drainRx some).nodup

theorem rxSkbqueue_bottom (packet : Option ι) (s : AlohaState ι) :
    (s.rx conf packet false).2.rxSkbqueue = [] :=
  congrArg AlohaState.rxSkbqueue ((s.enqueueRx packet).drainRx_eq fun _ => packet)

/-- For each packet of its queue the bottom half hands up the packet it was called with. -/
theorem rxLog_bottom (hnodup : s.held.Nodup) {packet : Option ι}
    (hfresh : ∀ p ∈ packet, p ∉ s.held) :
    ((s.rx conf packet false).2.rxLog.map RxOutcome.packet) =
      s.rxLog.map RxOutcome.packet ++ (s.rxSkbqueue ++ packet.toList).map fun _ => packet := by
  have hqueue : (s.rxSkbqueue ++ packet.toList).Nodup :=
    (nodup_held_enqueueRx hnodup hfresh).sublist
      ((List.sublist_append_left _ _).trans (List.sublist_append_left _ _))
  exact (receiveOne_handles_packet packet).log_foldl hqueue { s with rxSkbqueue := [] }

/-! ## Packets that are given -/

variable {packet : Option (ι × SkBuff)}

theorem give_eq (packet : Option (ι × SkBuff)) (s : AlohaState ι) :
    s.give packet = { s with mem := (s.give packet).mem } := by
  cases packet <;> rfl

theorem held_give : (s.give packet).held = s.held := by
  rw [give_eq]
  rfl

theorem mem_give (p : ι × SkBuff) (hp : p ∈ packet) : (s.give packet).mem p.1 = p.2 := by
  obtain rfl := hp
  exact Function.update_self ..

theorem mem_give_of_mem (hfresh : ∀ p ∈ packet.map Prod.fst, p ∉ s.held) {q : ι}
    (hq : q ∈ s.held) : (s.give packet).mem q = s.mem q := by
  cases packet with
  | none => rfl
  | some p =>
      have hne : q ≠ p.1 := ne_of_mem_of_not_mem hq (hfresh p.1 rfl)
      exact Function.update_of_ne hne _ _

theorem Prompt.give (h : s.Prompt conf) : (s.give packet).Prompt conf := by
  rw [give_eq]
  exact ⟨h.rx_empty, h.tx_empty⟩

theorem Sound.give (h : s.Sound conf given) (hfresh : ∀ p ∈ packet.map Prod.fst, p ∉ s.held) :
    (s.give packet).Sound conf given := by
  have hmem : ∀ q ∈ s.txSkbqueue, (s.give packet).mem q = s.mem q := by
    intro q hq
    exact mem_give_of_mem hfresh (List.mem_append_left _ (List.mem_append_right _ hq))
  rw [give_eq]
  exact ⟨h.nodup, h.kept.frame hmem⟩

theorem RxKept.give (h : s.RxKept conf given)
    (hfresh : ∀ p ∈ packet.map Prod.fst, p ∉ s.held) : (s.give packet).RxKept conf given := by
  have hmem : ∀ q ∈ s.rxSkbqueue, (s.give packet).mem q = s.mem q := by
    intro q hq
    exact mem_give_of_mem hfresh (List.mem_append_left _ (List.mem_append_left _ hq))
  rw [give_eq]
  exact h.frame hmem

end AlohaState

/-! ## Runs -/

/-- A packet was delivered, or freed where there is no receive function. -/
def RxOutcome.IsFor (conf : AlohaConf) (p : ι) : RxOutcome ι → Prop
  | .received packet _ => conf.myrxfunc = true ∧ packet = some p
  | .freed packet => conf.myrxfunc = false ∧ packet = some p

namespace AlohaRun

variable {conf : AlohaConf} {w w' : AlohaRun ι}

/-- Each packet given to `valoha_rx` is delivered once or still queued, in order. -/
def RxInOrder (conf : AlohaConf) (w : AlohaRun ι) : Prop :=
  InOrder (RxOutcome.IsFor conf) (w.rxGiven.map Prod.fst) w.inst.rxSkbqueue w.inst.rxLog

/-- Each packet given to `valoha_tx` is passed to `phy_sendpacket` once or still queued, in
order. -/
def TxInOrder (w : AlohaRun ι) : Prop :=
  InOrder (fun p outcome => outcome.packet = p) (w.txGiven.map Prod.fst) w.inst.txSkbqueue
    w.inst.txLog

/-- Where the payload that arrives is one that was sent, the payload that is delivered is the one
that was given to the sender. -/
def Deciphers {κ : Type*} (sender : AlohaRun κ) (w : AlohaRun ι) : Prop :=
  ∀ (i j : ℕ) (given : κ × SkBuff) (sent : TxOutcome κ) (arrived : ι × SkBuff)
    (packet : Option ι) (data : List (BitVec 8)),
    sender.txGiven[i]? = some given → sender.inst.txLog[i]? = some sent →
    w.rxGiven[j]? = some arrived → arrived.2.data = sent.contents.data →
    w.inst.rxLog[j]? = some (.received packet data) → data = given.2.data

structure Sound (conf : AlohaConf) (w : AlohaRun ι) : Prop where
  prompt : w.inst.Prompt conf
  inst : w.inst.Sound conf w.txGiven

theorem sound_start (mem : ι → SkBuff) : (start mem).Sound conf :=
  ⟨⟨fun _ => rfl, fun _ => rfl⟩, ⟨List.nodup_nil, Kept.start⟩⟩

theorem isFor_rxOutcome (conf : AlohaConf) (p : ι) (skb : SkBuff) :
    (rxOutcome conf p skb).IsFor conf p := by
  cases hrx : conf.myrxfunc <;> simp [rxOutcome, RxOutcome.IsFor, hrx]

theorem map_packet_of_isFor {given : List ι} {log : List (RxOutcome ι)}
    (h : List.Forall₂ (RxOutcome.IsFor conf) given log) :
    log.map RxOutcome.packet = given.map some := by
  induction h with
  | nil => rfl
  | @cons p outcome _ _ hp _ ih =>
      have hpacket : outcome.packet = some p := by
        cases outcome <;> exact hp.2
      rw [List.map_cons, List.map_cons, hpacket, ih]

theorem deciphers_of_kept {κ : Type*} {conf' : AlohaConf} {sender : AlohaRun κ}
    (hcrypto : conf.useCrypto = true) (hcrypto' : conf'.useCrypto = true)
    (hsender : sender.Sound conf') (hkept : w.inst.RxKept conf w.rxGiven) :
    Deciphers sender w := by
  intro i j given sent arrived packet data hgiven hsent harrived hsame hdata
  have hsentEq := hsender.inst.kept.getElem?_eq hgiven hsent
  have hdataEq := hkept.getElem?_eq harrived hdata
  have hpayload : data = macRot128 arrived.2.data := by
    cases hrx : conf.myrxfunc <;> simp_all [rxOutcome, payload]
  rw [hpayload, hsame, hsentEq]
  simp [txOutcome, payload, hcrypto']

variable [DecidableEq ι]

theorem eq_apply_of_step {call : AlohaCall ι} (hstep : alohaStep conf call w = some w') :
    (∀ p ∈ call.packet?.map Prod.fst, p ∉ w.inst.held) ∧ w' = call.apply conf w := by
  rw [alohaStep] at hstep
  split at hstep
  · cases hstep
  · rename_i hnone
    exact ⟨fun p hp hheld => hnone ⟨p, hp, hheld⟩, (Option.some.inj hstep).symm⟩

theorem Sound.step (h : w.Sound conf) {call : AlohaCall ι}
    (hstep : alohaStep conf call w = some w') : w'.Sound conf := by
  obtain ⟨hfresh, rfl⟩ := eq_apply_of_step hstep
  have hprompt : (w.inst.give call.packet?).Prompt conf := h.prompt.give
  have hsound := h.inst.give hfresh
  have hheld : ∀ p ∈ call.packet?.map Prod.fst, p ∉ (w.inst.give call.packet?).held := by
    rwa [AlohaState.held_give]
  cases call with
  | rx packet intop => exact ⟨hprompt.rx _ _, hsound.rx hprompt hheld _⟩
  | tx packet intop =>
      exact ⟨hprompt.tx _ _, hsound.tx hprompt hheld AlohaState.mem_give _⟩
  | txDone packet intop => exact ⟨hprompt.txDone _ _, hsound.txDone hheld _⟩
  | work => exact ⟨.work, h.inst.work⟩

/-- The queue that the bottom half of `valoha_rx` finds. -/
def FindsEmpty (call : AlohaCall ι) (w : AlohaRun ι) : Prop :=
  match call with
  | .rx _ false => w.inst.rxSkbqueue = []
  | _ => True

theorem rxKept_step (h : w.Sound conf) (hkept : w.inst.RxKept conf w.rxGiven)
    {call : AlohaCall ι} (hempty : FindsEmpty call w) (hstep : alohaStep conf call w = some w') :
    w'.inst.RxKept conf w'.rxGiven := by
  obtain ⟨hfresh, rfl⟩ := eq_apply_of_step hstep
  have hprompt : (w.inst.give call.packet?).Prompt conf := h.prompt.give
  have hnodup := (h.inst.give hfresh).nodup
  have hgiven := hkept.give hfresh
  have hheld : ∀ p ∈ call.packet?.map Prod.fst, p ∉ (w.inst.give call.packet?).held := by
    rwa [AlohaState.held_give]
  cases call with
  | rx packet intop =>
      refine hgiven.rx hprompt hnodup hheld AlohaState.mem_give ?_
      rintro rfl
      rw [AlohaState.give_eq]
      exact hempty
  | tx packet intop => exact hgiven.tx hprompt hnodup hheld _
  | txDone packet intop => exact hgiven.txDone _ _
  | work => exact hkept.work h.inst

/-- The bottom half hands up its own packet for every packet that it finds in the queue, so it must
not find one. -/
theorem rxSkbqueue_eq_nil_of_inOrder {s : AlohaState ι} {given : List (ι × SkBuff)}
    (hkept : s.RxKept conf given) (hnodup : s.held.Nodup) {packet : Option (ι × SkBuff)}
    (hfresh : ∀ p ∈ packet.map Prod.fst, p ∉ s.held)
    (horder : InOrder (RxOutcome.IsFor conf) ((given ++ packet.toList).map Prod.fst) []
      (s.rx conf (packet.map Prod.fst) false).2.rxLog) : s.rxSkbqueue = [] := by
  obtain ⟨before, hbefore, hlog⟩ := hkept.inOrder (isFor_rxOutcome conf)
  obtain ⟨after, hafter, hlog'⟩ := horder
  -- The packets that should have been handed up, and those that were.
  have hgiven : after = before ++ (s.rxSkbqueue ++ (packet.map Prod.fst).toList) := by
    rw [← List.append_nil after, ← hafter, List.map_append, hbefore, List.append_assoc]
    cases packet <;> rfl
  have hwanted : after.map some = before.map some ++
      (s.rxSkbqueue ++ (packet.map Prod.fst).toList).map some := by
    rw [hgiven, List.map_append]
  have hhanded := map_packet_of_isFor hlog'
  rw [AlohaState.rxLog_bottom hnodup hfresh, map_packet_of_isFor hlog, hwanted,
    List.append_cancel_left_eq] at hhanded
  rw [List.eq_nil_iff_forall_not_mem]
  intro p hp
  have hsame : packet.map Prod.fst = some p :=
    List.map_inj_left.mp hhanded p (List.mem_append_left _ hp)
  exact hfresh p hsame (List.mem_append_left _ (List.mem_append_left _ hp))

theorem findsEmpty_of_rxInOrder (h : w.Sound conf) (hkept : w.inst.RxKept conf w.rxGiven)
    {call : AlohaCall ι} (hstep : alohaStep conf call w = some w') (horder : w'.RxInOrder conf) :
    FindsEmpty call w := by
  obtain ⟨hfresh, rfl⟩ := eq_apply_of_step hstep
  match call, hfresh, horder with
  | .rx _ true, _, _ | .tx _ _, _, _ | .txDone _ _, _, _ | .work, _, _ => trivial
  | .rx packet false, hfresh, horder =>
      have hheld : ∀ p ∈ packet.map Prod.fst, p ∉ (w.inst.give packet).held := by
        rwa [AlohaState.held_give]
      have hdrained : ((AlohaCall.rx packet false).apply conf w).inst.rxSkbqueue = [] :=
        AlohaState.rxSkbqueue_bottom _ _
      rw [RxInOrder, hdrained] at horder
      have hnil := rxSkbqueue_eq_nil_of_inOrder (hkept.give hfresh) (h.inst.give hfresh).nodup
        hheld horder
      rwa [AlohaState.give_eq] at hnil

end AlohaRun

section

variable {κ : Type*} [DecidableEq ι] [DecidableEq κ]

open AlohaRun in
/-- Packets are delivered once and in order, and deciphered, exactly when the bottom half of
`valoha_rx` never finds a packet in the queue. -/
theorem aloha_delivers_iff (conf : AlohaConf) (mem : ι → SkBuff) (calls : List (AlohaCall ι)) :
    (∀ w, Machine.Visits (alohaStep conf) (start mem) calls w →
      w.RxInOrder conf ∧ w.TxInOrder ∧
        (conf.useCrypto = true → ∀ (conf' : AlohaConf) (mem' : κ → SkBuff)
          (calls' : List (AlohaCall κ)) (sender : AlohaRun κ), conf'.useCrypto = true →
          Machine.Visits (alohaStep conf') (start mem') calls' sender → Deciphers sender w)) ↔
    Machine.Throughout (alohaStep conf) FindsEmpty calls (start mem) := by
  constructor
  · intro hall
    refine Machine.throughout_of_visits
      (P := fun w => w.Sound conf ∧ w.inst.RxKept conf w.rxGiven)
      (Q := fun w => w.RxInOrder conf) ?_ ⟨sound_start mem, Kept.start⟩ fun w hw => (hall w hw).1
    rintro call w w' ⟨hsound, hkept⟩ hstep horder
    have hempty := findsEmpty_of_rxInOrder hsound hkept hstep horder
    exact ⟨hempty, hsound.step hstep, rxKept_step hsound hkept hempty hstep⟩
  · intro hcond w hw
    have hinv : w.Sound conf ∧ w.inst.RxKept conf w.rxGiven := by
      refine hw.invariant_of_throughout (P := fun w => w.Sound conf ∧ w.inst.RxKept conf w.rxGiven)
        ?_ hcond ⟨sound_start mem, Kept.start⟩
      rintro call w w' ⟨hsound, hkept⟩ hempty hstep
      exact ⟨hsound.step hstep, rxKept_step hsound hkept hempty hstep⟩
    obtain ⟨hsound, hkept⟩ := hinv
    refine ⟨hkept.inOrder (isFor_rxOutcome conf), hsound.inst.kept.inOrder fun _ _ => rfl, ?_⟩
    intro hcrypto conf' mem' calls' sender hcrypto' hsender
    have hsent : sender.Sound conf' := 
      hsender.invariant (fun h hstep => h.step hstep) (sound_start mem')
    exact deciphers_of_kept hcrypto hcrypto' hsent hkept

end

def deferring : AlohaConf where
  defertx := false
  defertxdone := false
  deferrx := true
  useCrypto := false
  myrxfunc := true
  attached := true
  txbitrate := 2
  maxinflight := 1

/-- Packet 1 is received in the top half. The bottom half takes it out of the queue and delivers a
null pointer, or delivers packet 2 twice. -/
theorem aloha_loses_packet :
    (∃ w, Machine.Visits (alohaStep deferring) (AlohaRun.start fun _ => ⟨[], []⟩)
      [.rx (some (1, ⟨[65], []⟩)) true, .rx none false] w ∧
      w.inst.rxSkbqueue = [] ∧ w.inst.rxLog = [.received none []] ∧ ¬w.RxInOrder deferring) ∧
    ∃ w, Machine.Visits (alohaStep deferring) (AlohaRun.start fun _ => ⟨[], []⟩)
      [.rx (some (1, ⟨[65], []⟩)) true, .rx (some (2, ⟨[66], []⟩)) false] w ∧
      w.inst.rxSkbqueue = [] ∧ w.inst.rxLog = [.received (some 2) [66], .received (some 2) [66]] ∧
      ¬w.RxInOrder deferring := by
  refine ⟨⟨_, Machine.visits_of_finish rfl, rfl, rfl, ?_⟩,
    ⟨_, Machine.visits_of_finish rfl, rfl, rfl, ?_⟩⟩ <;>
  · rintro ⟨done, hgiven, hlog⟩
    -- The first packet that is handed up should be packet 1.
    have hhanded := AlohaRun.map_packet_of_isFor hlog
    rw [← hgiven.trans (List.append_nil done)] at hhanded
    exact absurd hhanded (by decide)

end Vmac
end WirelessMesh
