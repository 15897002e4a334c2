import WirelessMesh.Lib.QueueDrain
import WirelessMesh.Lib.Runs
import Mathlib.Data.Int.Notation
import Mathlib.Logic.Function.Basic

/-!
# The aloha MAC

A packet that is received is handed to the upper layer, and one that is to be sent is given to the
hardware, at once or later: in the top half of an interrupt it may be queued, and the queues are
emptied in the bottom half or by the work function. With encryption the bytes of a packet are
changed on the way out and back on the way in. The instance has the packets of its queues; the
caller gives it packets that it does not have.
-/

namespace WirelessMesh
namespace Vmac

open QueueDrain

/-- `struct sk_buff`: the bytes of the packet, and the part of the control block behind
`ATH_VMAC_CB_BASE`. -/
structure SkBuff where
  data : List (BitVec 8)
  cb : List (BitVec 8)
deriving DecidableEq

def macRot128 (data : List (BitVec 8)) : List (BitVec 8) :=
  data.map fun byte => BitVec.ofNat 8 ((byte.toNat + 128) % 256)

/-- `vmac_ath_set_default_phy_props`, from `ATH_VMAC_CB_RATE` to `ATH_VMAC_CB_RX_BF3`. -/
def athSetDefaultPhyProps (cb : List (BitVec 8)) : List (BitVec 8) :=
  [2, 1, 0, 1] ++ List.replicate 16 0 ++ cb.drop 20

def athSetTxBitrate (rate : BitVec 8) (cb : List (BitVec 8)) : List (BitVec 8) := cb.set 0 rate

/-- What is fixed in `valoha_inst_t`. -/
structure AlohaConf where
  defertx : Bool
  defertxdone : Bool
  deferrx : Bool
  useCrypto : Bool
  /-- There is a `myrxfunc`. -/
  myrxfunc : Bool
  /-- `myphy` is not `defaultphy`. -/
  attached : Bool
  txbitrate : BitVec 8
  maxinflight : ℤ

/-- What becomes of a received packet: `myrxfunc` is called with it, or `phy_free_skb`. -/
inductive RxOutcome (ι : Type*)
  | received (packet : Option ι) (data : List (BitVec 8))
  | freed (packet : Option ι)
deriving DecidableEq

/-- A call of `phy_sendpacket`. -/
structure TxOutcome (ι : Type*) where
  maxinflight : ℤ
  packet : ι
  contents : SkBuff
deriving DecidableEq

/-- The queues of `valoha_inst_t`, the packets in memory, and the calls that were made. -/
structure AlohaState (ι : Type*) where
  rxSkbqueue : List ι
  txSkbqueue : List ι
  txdoneSkbqueue : List ι
  mem : ι → SkBuff
  rxLog : List (RxOutcome ι)
  txLog : List (TxOutcome ι)
  /-- Sent packets that were freed. -/
  doneLog : List ι
  /-- The calls of `phy_schedule_work_asap`. -/
  scheduled : ℕ

def macTxOk : ℤ := 0
def macNotifyOk : ℤ := 0
def macNotifyRunagain : ℤ := 1

namespace AlohaState

variable {ι : Type*} [DecidableEq ι] (conf : AlohaConf)

/-! ## One packet -/

def edit (p : ι) (f : SkBuff → SkBuff) (s : AlohaState ι) : AlohaState ι :=
  { s with mem := Function.update s.mem p (f (s.mem p)) }

def rot128 (p : ι) (s : AlohaState ι) : AlohaState ι :=
  s.edit p fun skb => { skb with data := macRot128 skb.data }

def prepSkb (p : ι) (s : AlohaState ι) : AlohaState ι :=
  if conf.attached then
    s.edit p fun skb =>
      { skb with cb := athSetTxBitrate conf.txbitrate (athSetDefaultPhyProps skb.cb) }
  else s

def callRxfunc (packet : Option ι) (s : AlohaState ι) : AlohaState ι :=
  { s with rxLog := s.rxLog ++ [.received packet (packet.elim [] fun p => (s.mem p).data)] }

/-- The call of `phy_free_skb` for a packet that was received. -/
def freeRx (packet : Option ι) (s : AlohaState ι) : AlohaState ι :=
  { s with rxLog := s.rxLog ++ [.freed packet] }

/-- The call of `phy_sendpacket`. Its result is only printed. -/
def sendpacket (p : ι) (s : AlohaState ι) : AlohaState ι :=
  { s with txLog := s.txLog ++ [⟨conf.maxinflight, p, s.mem p⟩] }

/-- The call of `phy_free_skb` for a packet that was sent. -/
def freeDone (s : AlohaState ι) (p : ι) : AlohaState ι := { s with doneLog := s.doneLog ++ [p] }

/-- The body of a loop over the receive queue: `skb` was dequeued, and `packet` is handed up. -/
def receiveOne (packet : Option ι) (skb : ι) (s : AlohaState ι) : AlohaState ι :=
  if conf.myrxfunc then (if conf.useCrypto then s.rot128 skb else s).callRxfunc packet
  else s.freeRx packet

/-- The body of the loop over the transmit queue in `valoha_tx`. -/
def transmitOne (s : AlohaState ι) (skb : ι) : AlohaState ι :=
  ((if conf.useCrypto then s.rot128 skb else s).prepSkb conf skb).sendpacket conf skb

/-- The body of the loop over the transmit queue in `valoha_work`, which prepares the packet
first. -/
def workTransmitOne (s : AlohaState ι) (skb : ι) : AlohaState ι :=
  (if conf.useCrypto then (s.prepSkb conf skb).rot128 skb else s.prepSkb conf skb).sendpacket
    conf skb

/-! ## The entry points -/

def tx (packet : Option ι) (intop : Bool) (s : AlohaState ι) : ℤ × AlohaState ι :=
  if intop then
    match packet with
    | some p =>
        if conf.defertx || conf.useCrypto then
          (macTxOk, { s with
            txSkbqueue := s.txSkbqueue ++ [p]
            scheduled := s.scheduled + 1 })
        else (macTxOk, (s.prepSkb conf p).sendpacket conf p)
    | none => (macTxOk, s)
  else
    let queue := s.txSkbqueue ++ packet.toList
    (macTxOk, queue.foldl (transmitOne conf) { s with txSkbqueue := [] })

def txDone (packet : Option ι) (intop : Bool) (s : AlohaState ι) : ℤ × AlohaState ι :=
  if intop then
    match packet with
    | some p =>
        if conf.defertxdone then
          (macNotifyRunagain, { s with txdoneSkbqueue := s.txdoneSkbqueue ++ [p] })
        else (macNotifyOk, s.freeDone p)
    | none => (macNotifyOk, s)
  else
    let queue := s.txdoneSkbqueue ++ packet.toList
    (macNotifyOk, queue.foldl freeDone { s with txdoneSkbqueue := [] })

/-- `valoha_rx`. For each packet that is dequeued in the bottom half, the packet that the function
was called with is handed up. -/
def rx (packet : Option ι) (intop : Bool) (s : AlohaState ι) : ℤ × AlohaState ι :=
  if intop then
    match packet with
    | some p =>
        if conf.deferrx || conf.useCrypto then
          (macNotifyRunagain, { s with rxSkbqueue := s.rxSkbqueue ++ [p] })
        else if conf.myrxfunc then (macNotifyOk, s.callRxfunc packet)
        else (macNotifyOk, s.freeRx packet)
    | none => (macNotifyOk, s)
  else
    let queue := s.rxSkbqueue ++ packet.toList
    (macNotifyOk,
      queue.foldl (fun s skb => s.receiveOne conf packet skb) { s with rxSkbqueue := [] })

def work (s : AlohaState ι) : ℤ × AlohaState ι :=
  let s := s.rxSkbqueue.foldl (fun s skb => s.receiveOne conf (some skb) skb)
    { s with rxSkbqueue := [] }
  let s := s.txSkbqueue.foldl (workTransmitOne conf) { s with txSkbqueue := [] }
  let s := s.txdoneSkbqueue.foldl freeDone { s with txdoneSkbqueue := [] }
  (macNotifyOk, s)

end AlohaState

/-! ## Runs -/

/-- A call of one of the entry points, with what the packet holds. -/
inductive AlohaCall (ι : Type*)
  | rx (packet : Option (ι × SkBuff)) (intop : Bool)
  | tx (packet : Option (ι × SkBuff)) (intop : Bool)
  | txDone (packet : Option (ι × SkBuff)) (intop : Bool)
  | work

/-- An instance, and the packets that were given to `valoha_rx` and `valoha_tx`. -/
structure AlohaRun (ι : Type*) where
  inst : AlohaState ι
  rxGiven : List (ι × SkBuff)
  txGiven : List (ι × SkBuff)

variable {ι : Type*} [DecidableEq ι] (conf : AlohaConf)

namespace AlohaState

def held (s : AlohaState ι) : List ι := s.rxSkbqueue ++ s.txSkbqueue ++ s.txdoneSkbqueue

def give (packet : Option (ι × SkBuff)) (s : AlohaState ι) : AlohaState ι :=
  match packet with
  | none => s
  | some (p, skb) => { s with mem := Function.update s.mem p skb }

end AlohaState

def AlohaCall.packet? : AlohaCall ι → Option (ι × SkBuff)
  | .rx packet _ | .tx packet _ | .txDone packet _ => packet
  | .work => none

def AlohaCall.apply (w : AlohaRun ι) : AlohaCall ι → AlohaRun ι
  | .rx packet intop => { w with
      inst := ((w.inst.give packet).rx conf (packet.map Prod.fst) intop).2
      rxGiven := w.rxGiven ++ packet.toList }
  | .tx packet intop => { w with
      inst := ((w.inst.give packet).tx conf (packet.map Prod.fst) intop).2
      txGiven := w.txGiven ++ packet.toList }
  | .txDone packet intop => { w with
      inst := ((w.inst.give packet).txDone conf (packet.map Prod.fst) intop).2 }
  | .work => { w with inst := (w.inst.work conf).2 }

/-- One call. A caller does not give a packet that the instance has. -/
def alohaStep (call : AlohaCall ι) (w : AlohaRun ι) : Option (AlohaRun ι) :=
  if ∃ p ∈ call.packet?.map Prod.fst, p ∈ w.inst.held then none else some (call.apply conf w)

def AlohaRun.start (mem : ι → SkBuff) : AlohaRun ι := ⟨⟨[], [], [], mem, [], [], [], 0⟩, [], []⟩

end Vmac
end WirelessMesh
