import WirelessMesh.Lib.PacketBuffer
import WirelessMesh.Mesh.Manager
import Mathlib.Tactic.IntervalCases

/-!
# The portal between Ethernet and the mesh

The portal is a net device on one side and a mesh device on the other. What the net
device is to send is turned into an 802.11 data frame with an LLC/SNAP header and
received by the mesh; what the mesh device is to send is turned back into an Ethernet
frame and received by the network stack. `swjtu_mesh_queue_xmit` hands a frame to a mesh
device and frees it when the device did not take it.
-/

namespace WirelessMesh
namespace Mesh

abbrev SkBuff := PacketBuffer Byte

/-! ## Headers -/

/-- `struct ether_header`; the type as it stands in memory. -/
@[ext]
structure EtherHeader where
  etherDhost : Mac
  etherShost : Mac
  etherType : Vector Byte 2

@[ext]
structure Llc where
  llcDsap : Byte
  llcSsap : Byte
  llcControl : Byte
  orgCode : Vector Byte 3
  etherType : Vector Byte 2

@[ext]
structure Ieee80211Frame where
  iFc : Vector Byte 2
  iDur : Vector Byte 2
  iAddr1 : Mac
  iAddr2 : Mac
  iAddr3 : Mac
  iSeq : Vector Byte 2

def etherLayout : Layout Byte EtherHeader where
  size := 14
  encode eh :=
    let d := eh.etherDhost
    let s := eh.etherShost
    #v[d[0], d[1], d[2], d[3], d[4], d[5], s[0], s[1], s[2], s[3], s[4], s[5],
      eh.etherType[0], eh.etherType[1]]
  decode v := ⟨#v[v[0], v[1], v[2], v[3], v[4], v[5]], #v[v[6], v[7], v[8], v[9], v[10], v[11]],
    #v[v[12], v[13]]⟩
  decode_encode := by
    rintro ⟨d, s, t⟩
    apply EtherHeader.ext
    all_goals exact Vector.ext fun i hi => by interval_cases i <;> rfl

def llcLayout : Layout Byte Llc where
  size := 8
  encode llc := #v[llc.llcDsap, llc.llcSsap, llc.llcControl, llc.orgCode[0], llc.orgCode[1],
    llc.orgCode[2], llc.etherType[0], llc.etherType[1]]
  decode v := ⟨v[0], v[1], v[2], #v[v[3], v[4], v[5]], #v[v[6], v[7]]⟩
  decode_encode := by
    rintro ⟨_, _, _, o, t⟩
    apply Llc.ext
    exacts [rfl, rfl, rfl, Vector.ext fun i hi => by interval_cases i <;> rfl,
      Vector.ext fun i hi => by interval_cases i <;> rfl]

def ieee80211Layout : Layout Byte Ieee80211Frame where
  size := 24
  encode wh :=
    let x := wh.iAddr1
    let y := wh.iAddr2
    let z := wh.iAddr3
    #v[wh.iFc[0], wh.iFc[1], wh.iDur[0], wh.iDur[1], x[0], x[1], x[2], x[3], x[4], x[5],
      y[0], y[1], y[2], y[3], y[4], y[5], z[0], z[1], z[2], z[3], z[4], z[5],
      wh.iSeq[0], wh.iSeq[1]]
  decode v := ⟨#v[v[0], v[1]], #v[v[2], v[3]], #v[v[4], v[5], v[6], v[7], v[8], v[9]],
    #v[v[10], v[11], v[12], v[13], v[14], v[15]], #v[v[16], v[17], v[18], v[19], v[20], v[21]],
    #v[v[22], v[23]]⟩
  decode_encode := by
    rintro ⟨f, d, x, y, z, s⟩
    apply Ieee80211Frame.ext
    all_goals exact Vector.ext fun i hi => by interval_cases i <;> rfl

/-! ## From the net device into the mesh -/

/-- What the kernel answers during one transmission: whether the buffer can be unshared,
and the room it gets when more is needed, `spare` bytes more than asked for. -/
structure SkbEnv where
  unshareOk : Bool
  reallocOk : Bool
  spare : ℕ
  fresh : ℕ → Byte

/-- `skb_realloc_headroom` to at least `headroom` bytes, with what is found in new memory. -/
def reallocHeadroom (env : SkbEnv) (headroom : ℕ) (skb : SkBuff) : SkBuff :=
  { skb with headroom :=
      (List.range (headroom - skb.headroom.length + env.spare)).map env.fresh ++ skb.headroom }

/-- `__skbhdr_adjust_4_wifi`. The tail room it needs is zero, so the branch for a short
tail is never taken. -/
def skbhdrAdjust4Wifi (env : SkbEnv) (hdrsize : ℕ) (skb : SkBuff) : Option SkBuff :=
  let needHeadroom := hdrsize + llcLayout.size
  if !env.unshareOk then none
  else if skb.headroom.length < needHeadroom then
    if env.reallocOk then some (reallocHeadroom env needHeadroom skb) else none
  else some skb

def roundup (x y : ℕ) : ℕ := (x + (y - 1)) / y * y

def llcSnapLsap : Byte := 0xaa
def llcUi : Byte := 0x03

def snapHeader (etherType : Vector Byte 2) : Llc where
  llcDsap := llcSnapLsap
  llcSsap := llcSnapLsap
  llcControl := llcUi
  orgCode := #v[0, 0, 0]
  etherType := etherType

/-- A data frame in ad hoc mode. The sequence field keeps what stood there. -/
def adHocHeader (eh : EtherHeader) (wh : Ieee80211Frame) : Ieee80211Frame :=
  { wh with
    iFc := #v[0x08, 0x00]
    iDur := #v[0, 0]
    iAddr1 := eh.etherDhost
    iAddr2 := eh.etherShost
    iAddr3 := eh.etherDhost }

def pushHeaders (hdrsize : ℕ) (eh : EtherHeader) (skb : SkBuff) : Option SkBuff := do
  let skb ← skb.push llcLayout.size
  let skb := skb.setHeader llcLayout (snapHeader eh.etherType)
  let skb ← skb.push hdrsize
  return skb.setHeader ieee80211Layout (adHocHeader eh (skb.header ieee80211Layout))

/-- What `_portal_net_dev_xmit` did with the frame. -/
inductive NetXmit where
  /-- not running: the frame stays with the caller -/
  | refused
  /-- no memory for the headers: the frame is gone -/
  | dropped
  | meshifRx (skb : SkBuff)

/-- `_portal_net_dev_xmit`; `running` is the flag `MESHF_RUNNING` of the mesh device. A
failed `KASSERT` or a short room is `none`. -/
def portalNetDevXmit (env : SkbEnv) (running : Bool) (skb : SkBuff) : Option NetXmit :=
  if !running then some .refused
  else if skb.data.length < etherLayout.size then none
  else do
    let eh := skb.header etherLayout
    let skb ← skb.pull etherLayout.size
    let hdrsize := roundup ieee80211Layout.size 4
    match skbhdrAdjust4Wifi env hdrsize skb with
    | none => return .dropped
    | some skb =>
        let skb ← pushHeaders hdrsize eh skb
        return .meshifRx skb

/-! ## From the mesh device into the network stack -/

inductive FrameDir where
  | nods
  | tods
  | fromds
  | dstods
deriving DecidableEq

/-- The bits of `IEEE80211_FC1_DIR_MASK`. -/
def frameDir (fc1 : Byte) : FrameDir :=
  match (fc1 &&& 3).toNat with
  | 0 => .nods
  | 1 => .tods
  | 2 => .fromds
  | _ => .dstods

/-- A frame for the network stack: the header that `skb->mac` points to, and the buffer. -/
structure EtherFrame where
  mac : EtherHeader
  skb : SkBuff

/-- `eth_type_trans`: the header stays in front of the data. -/
def ethTypeTrans (skb : SkBuff) : EtherFrame :=
  ⟨skb.header etherLayout, (skb.pull etherLayout.size).getD skb⟩

inductive Consumed where
  | freed
  | netifRx (frame : EtherFrame)

def htons (n : ℕ) : Vector Byte 2 := #v[BitVec.ofNat 8 (n / 256), BitVec.ofNat 8 n]

def Llc.isSnap (llc : Llc) : Bool :=
  llc.llcDsap == llcSnapLsap && llc.llcSsap == llcSnapLsap && llc.llcControl == llcUi &&
    llc.orgCode[0] == 0 && llc.orgCode[1] == 0 && llc.orgCode[2] == 0

/-- The 802.11 and the LLC header taken off, and the type unless `llc` is not `NULL` in the
end. Too short a frame keeps the first; reading the second through `NULL` is `none`. -/
def stripHeaders (skb : SkBuff) : Option (Option (Vector Byte 2) × SkBuff) :=
  match skb.pull ieee80211Layout.size with
  | none => if llcLayout.size ≤ skb.data.length then none else some (some #v[0, 0], skb)
  | some skb =>
      let llc := skb.header llcLayout
      if llcLayout.size ≤ skb.data.length ∧ llc.isSnap then
        (skb.pull llcLayout.size).map fun skb => (some llc.etherType, skb)
      else some (none, skb)

/-- `_portal_mesh_dev_xmit`; `portal` says that the manager has a portal, `netifRx` is the
answer of `netif_rx`. -/
def portalMeshDevXmit (portal : Bool) (netifRx : ℤ) (skb : SkBuff) : Option (ℤ × List Consumed) :=
  if !portal then none
  else do
    let wh := skb.header ieee80211Layout
    let (etherType, skb) ← stripHeaders skb
    let skb ← skb.push etherLayout.size
    let finish (dhost shost : Mac) :=
      let etherType := etherType.getD (htons (skb.data.length - etherLayout.size))
      let frame := ethTypeTrans (skb.setHeader etherLayout ⟨dhost, shost, etherType⟩)
      some (netifRx, [.netifRx frame])
    match frameDir wh.iFc[1] with
    | .nods => finish wh.iAddr1 wh.iAddr2
    | .tods => finish wh.iAddr3 wh.iAddr2
    | .fromds => finish wh.iAddr1 wh.iAddr3
    | .dstods => some (-1, [.freed])

/-! ## There and back -/

section RoundTrip

variable {env : SkbEnv} {running : Bool} {skb wifi : SkBuff} {hdrsize : ℕ} {netifRx : ℤ}

theorem skbhdrAdjust4Wifi_room {skb' : SkBuff} (h : skbhdrAdjust4Wifi env hdrsize skb = some skb') :
    skb'.data = skb.data ∧ hdrsize + llcLayout.size ≤ skb'.headroom.length := by
  unfold skbhdrAdjust4Wifi at h
  dsimp only at h
  split_ifs at h with _ hshort
  · obtain rfl := Option.some.inj h
    refine ⟨rfl, ?_⟩
    simp only [reallocHeadroom, List.length_append, List.length_map, List.length_range]
    omega
  · obtain rfl := Option.some.inj h
    exact ⟨rfl, Nat.le_of_not_lt hshort⟩

def IsWifi (eh : EtherHeader) (payload : List Byte) (wifi : SkBuff) : Prop :=
  ∃ old, wifi.data = (ieee80211Layout.encode (adHocHeader eh old)).toList ++
    ((llcLayout.encode (snapHeader eh.etherType)).toList ++ payload)

theorem pushHeaders_isWifi (eh : EtherHeader)
    (h : ieee80211Layout.size + llcLayout.size ≤ skb.headroom.length) :
    ∃ wifi, pushHeaders ieee80211Layout.size eh skb = some wifi ∧ IsWifi eh skb.data wifi := by
  obtain ⟨skb₁, old₁, hpush₁, hdata₁, hlen₁, hroom₁⟩ :=
    PacketBuffer.push_of_room (b := skb) (n := llcLayout.size) (by omega)
  have hset₁ := PacketBuffer.setHeader_data (h := snapHeader eh.etherType) hdata₁ hlen₁
  obtain ⟨skb₂, old₂, hpush₂, hdata₂, hlen₂, _⟩ :=
    PacketBuffer.push_of_room (b := skb₁.setHeader llcLayout (snapHeader eh.etherType))
      (n := ieee80211Layout.size) (by rw [PacketBuffer.headroom_setHeader]; omega)
  rw [hset₁] at hdata₂
  refine ⟨skb₂.setHeader ieee80211Layout (adHocHeader eh (skb₂.header ieee80211Layout)), ?_,
    _, PacketBuffer.setHeader_data hdata₂ hlen₂⟩
  simp [pushHeaders, hpush₁, hpush₂]

theorem portalNetDevXmit_cases (env : SkbEnv) (running : Bool)
    (h : etherLayout.size ≤ skb.data.length) :
    portalNetDevXmit env running skb = some .refused ∨
    portalNetDevXmit env running skb = some .dropped ∨
    ∃ wifi, portalNetDevXmit env running skb = some (.meshifRx wifi) ∧
      IsWifi (skb.header etherLayout) (skb.data.drop etherLayout.size) wifi := by
  cases running with
  | false => exact .inl rfl
  | true =>
      obtain ⟨skb₁, hpull, hdata₁, _⟩ := PacketBuffer.pull_append
        (List.take_append_drop etherLayout.size skb.data).symm (List.length_take_of_le h)
      cases hadj : skbhdrAdjust4Wifi env (roundup ieee80211Layout.size 4) skb₁ with
      | none =>
          refine .inr (.inl ?_)
          simp [portalNetDevXmit, Nat.not_lt.mpr h, hpull, hadj]
      | some skb₂ =>
          obtain ⟨hdata₂, hroom⟩ := skbhdrAdjust4Wifi_room hadj
          obtain ⟨wifi, hwifi, his⟩ := pushHeaders_isWifi (skb.header etherLayout) hroom
          rw [hdata₂, hdata₁] at his
          refine .inr (.inr ⟨wifi, ?_, his⟩)
          have hhdr : roundup ieee80211Layout.size 4 = ieee80211Layout.size := by decide
          rw [hhdr] at hadj
          simp [portalNetDevXmit, Nat.not_lt.mpr h, hpull, hhdr, hadj, hwifi]

theorem stripHeaders_of_isWifi {eh : EtherHeader} {payload : List Byte}
    (h : IsWifi eh payload wifi) : ∃ skb, stripHeaders wifi = some (some eh.etherType, skb) ∧
      skb.data = payload ∧ etherLayout.size ≤ skb.headroom.length := by
  obtain ⟨old, hdata⟩ := h
  obtain ⟨skb₁, hpull₁, hdata₁, hroom₁⟩ := PacketBuffer.pull_header hdata
  obtain ⟨skb₂, hpull₂, hdata₂, hroom₂⟩ := PacketBuffer.pull_header hdata₁
  refine ⟨skb₂, ?_, hdata₂, ?_⟩
  · have hsnap : (snapHeader eh.etherType).isSnap = true := rfl
    have hlen : llcLayout.size ≤ skb₁.data.length := by
      rw [hdata₁, List.length_append, Vector.length_toList]
      exact Nat.le_add_right _ _
    simp [stripHeaders, hpull₁, PacketBuffer.header_of_data hdata₁, hsnap, hlen, hpull₂]
    rfl
  · have hsize : etherLayout.size ≤ ieee80211Layout.size := by decide
    rw [hroom₂, hroom₁]
    simp only [List.length_append, Vector.length_toList]
    omega

theorem ethTypeTrans_setHeader {b : SkBuff} {eh : EtherHeader} {old payload : List Byte}
    (h : b.data = old ++ payload) (hold : old.length = etherLayout.size) :
    (ethTypeTrans (b.setHeader etherLayout eh)).mac = eh ∧
      (ethTypeTrans (b.setHeader etherLayout eh)).skb.data = payload := by
  have hset := PacketBuffer.setHeader_data (L := etherLayout) (h := eh) h hold
  obtain ⟨b', hpull, hdata, _⟩ := PacketBuffer.pull_header hset
  refine ⟨PacketBuffer.header_of_data hset, ?_⟩
  simp [ethTypeTrans, hpull, hdata]

theorem portalMeshDevXmit_of_isWifi {eh : EtherHeader} {payload : List Byte}
    (h : IsWifi eh payload wifi) : ∃ frame : EtherFrame,
      portalMeshDevXmit true netifRx wifi = some (netifRx, [.netifRx frame]) ∧ frame.mac = eh ∧
        frame.skb.data = payload := by
  obtain ⟨skb, hstrip, hdata, hroom⟩ := stripHeaders_of_isWifi h
  obtain ⟨old, hwifi⟩ := h
  obtain ⟨skb', old', hpush, hdata', hlen', _⟩ := PacketBuffer.push_of_room hroom
  rw [hdata] at hdata'
  refine ⟨_, ?_, ethTypeTrans_setHeader hdata' hlen'⟩
  have hdir : frameDir (adHocHeader eh old).iFc[1] = .nods := by simp [adHocHeader, frameDir]
  simp [portalMeshDevXmit, PacketBuffer.header_of_data hwifi, hstrip, hpush, hdir]
  rfl

/-- For every Ethernet frame, in a buffer with any room: the portal never runs out of it,
and what it makes for the mesh it turns back into a frame with the same addresses, the
same type or length, and the same payload. -/
theorem portal_round_trip (env : SkbEnv) (running : Bool) (netifRx : ℤ) (skb : SkBuff)
    (h : etherLayout.size ≤ skb.data.length) :
    (portalNetDevXmit env running skb).isSome ∧
    ∀ wifi, portalNetDevXmit env running skb = some (.meshifRx wifi) →
      ∃ frame, portalMeshDevXmit true netifRx wifi = some (netifRx, [.netifRx frame]) ∧
        frame.mac = skb.header etherLayout ∧ frame.skb.data = skb.data.drop etherLayout.size := by
  rcases portalNetDevXmit_cases env running h with hx | hx | ⟨wifi, hx, hwifi⟩
  · simp [hx]
  · simp [hx]
  · refine ⟨by simp [hx], ?_⟩
    intro wifi' hx'
    obtain rfl := NetXmit.meshifRx.inj (Option.some.inj (hx.symm.trans hx'))
    exact portalMeshDevXmit_of_isWifi hwifi

end RoundTrip

def tightSkb (data : List Byte) : SkBuff := ⟨[], data, fun _ => 0⟩

/-- An IEEE 802.3 frame whose payload begins like an LLC/SNAP header. -/
def snapPayload : SkBuff :=
  tightSkb [2, 0, 0, 0, 0, 9, 2, 0, 0, 0, 0, 7, 0, 9, 0xaa, 0xaa, 3, 0, 0, 0, 8, 0, 0x45]

theorem snap_payload_survives : ∃ wifi frame,
    portalNetDevXmit ⟨true, true, 0, fun _ => 0xff⟩ true snapPayload = some (.meshifRx wifi) ∧
    portalMeshDevXmit true 0 wifi = some (0, [.netifRx frame]) ∧
    frame.mac.etherType = #v[0, 9] ∧
    frame.skb.data = [0xaa, 0xaa, 3, 0, 0, 0, 8, 0, 0x45] := by
  have hlen : etherLayout.size ≤ snapPayload.data.length := by decide
  have hsent : (portalNetDevXmit ⟨true, true, 0, fun _ => 0xff⟩ true snapPayload).any
      (fun | .meshifRx _ => true | _ => false) = true := by decide +kernel
  obtain ⟨res, hres, hkind⟩ := (Option.any_eq_true _ _).mp hsent
  cases res with
  | refused => simp at hkind
  | dropped => simp at hkind
  | meshifRx wifi =>
      obtain ⟨frame, hback, hmac, hdata⟩ :=
        (portal_round_trip ⟨true, true, 0, fun _ => 0xff⟩ true 0 snapPayload hlen).2 wifi hres
      refine ⟨wifi, frame, hres, hback, ?_, ?_⟩
      · rw [hmac]
        decide +kernel
      · rw [hdata]
        decide +kernel

/-! ## Handing a frame to a mesh device -/

/-- What the hand-off reads of a device: `MESHF_UP` and `__MESH_LINK_STATE_XOFF`. -/
structure XmitDevice where
  up : Bool
  stopped : Bool

/-- `swjtu_mesh_queue_xmit`, with the `hard_start_xmit` of the device. -/
def meshQueueXmit (dev : XmitDevice) (hardStartXmit : SkBuff → Option (ℤ × List Consumed))
    (skb : SkBuff) : Option (ℤ × List Consumed) :=
  if dev.up then
    if !dev.stopped then do
      let (ret, consumed) ← hardStartXmit skb
      if ret = 0 then return (0, consumed) else return (-enetdown, consumed ++ [.freed])
    else some (-enetdown, [.freed])
  else some (-enetdown, [.freed])

/-- The call comes back, and the buffer was freed or passed on once in total. -/
def ConsumedOnce (result : Option (ℤ × List Consumed)) : Prop :=
  ∃ ret consumed, result = some (ret, consumed) ∧ consumed.length = 1

/-- The driver took the frame and says so, or left it and says so. -/
def Honest (result : Option (ℤ × List Consumed)) : Prop :=
  ∃ ret consumed, result = some (ret, consumed) ∧ consumed.length = if ret = 0 then 1 else 0

/-- The frame has an 802.11 header, or is too short for an LLC header and has room for an
Ethernet header. Others stop the kernel. -/
def Convertible (skb : SkBuff) : Prop :=
  ieee80211Layout.size ≤ skb.data.length ∨
    skb.data.length < llcLayout.size ∧ etherLayout.size ≤ skb.headroom.length

section HandOff

variable {portal : Bool} {netifRx : ℤ} {skb : SkBuff}

theorem queueXmit_of_refused {hardStartXmit : SkBuff → Option (ℤ × List Consumed)} {ret : ℤ}
    {consumed : List Consumed} (h : hardStartXmit skb = some (ret, consumed)) (hret : ret ≠ 0) :
    meshQueueXmit ⟨true, false⟩ hardStartXmit skb = some (-enetdown, consumed ++ [.freed]) := by
  simp [meshQueueXmit, h, hret]

theorem consumedOnce_queueXmit_iff (dev : XmitDevice)
    (hardStartXmit : SkBuff → Option (ℤ × List Consumed)) :
    ConsumedOnce (meshQueueXmit dev hardStartXmit skb) ↔
      dev.up = false ∨ dev.stopped = true ∨ Honest (hardStartXmit skb) := by
  have hfreed : ConsumedOnce (some (-enetdown, [.freed])) := ⟨_, _, rfl, rfl⟩
  obtain ⟨up, stopped⟩ := dev
  cases up with
  | false => exact iff_of_true hfreed (.inl rfl)
  | true =>
      cases stopped with
      | true => exact iff_of_true hfreed (.inr (.inl rfl))
      | false =>
          cases hxmit : hardStartXmit skb with
          | none => simp [meshQueueXmit, ConsumedOnce, Honest, hxmit]
          | some result =>
              obtain ⟨ret, consumed⟩ := result
              by_cases hret : ret = 0
              · simp [meshQueueXmit, ConsumedOnce, Honest, hxmit, hret]
              · simp [meshQueueXmit, ConsumedOnce, Honest, hxmit, hret]

theorem stripHeaders_of_long (h : ieee80211Layout.size ≤ skb.data.length) :
    ∃ etherType skb', stripHeaders skb = some (etherType, skb') ∧
      etherLayout.size ≤ skb'.headroom.length := by
  obtain ⟨skb₁, hpull₁, _, hroom₁⟩ := PacketBuffer.pull_append
    (List.take_append_drop ieee80211Layout.size skb.data).symm (List.length_take_of_le h)
  have hroom : etherLayout.size ≤ skb₁.headroom.length := by
    have hsize : etherLayout.size ≤ ieee80211Layout.size := by decide
    rw [hroom₁, List.length_append, List.length_take_of_le h]
    omega
  by_cases hllc : llcLayout.size ≤ skb₁.data.length ∧ (skb₁.header llcLayout).isSnap
  · obtain ⟨skb₂, hpull₂, _, hroom₂⟩ := PacketBuffer.pull_append
      (List.take_append_drop llcLayout.size skb₁.data).symm (List.length_take_of_le hllc.1)
    refine ⟨some (skb₁.header llcLayout).etherType, skb₂, ?_, ?_⟩
    · simp [stripHeaders, hpull₁, hllc, hpull₂]
    · rw [hroom₂, List.length_append]
      omega
  · refine ⟨none, skb₁, ?_, hroom⟩
    simp only [stripHeaders, hpull₁]
    rw [if_neg hllc]

theorem stripHeaders_of_short (h : skb.data.length < ieee80211Layout.size) :
    stripHeaders skb =
      if llcLayout.size ≤ skb.data.length then none else some (some #v[0, 0], skb) := by
  have hpull : skb.pull ieee80211Layout.size = none := if_neg (Nat.not_le.mpr h)
  simp [stripHeaders, hpull]

theorem portalMeshDevXmit_of_strip {etherType : Option (Vector Byte 2)} {skb' : SkBuff}
    (hstrip : stripHeaders skb = some (etherType, skb'))
    (hroom : etherLayout.size ≤ skb'.headroom.length) :
    if frameDir (skb.header ieee80211Layout).iFc[1] = .dstods then
      portalMeshDevXmit true netifRx skb = some (-1, [.freed])
    else ∃ frame, portalMeshDevXmit true netifRx skb = some (netifRx, [.netifRx frame]) := by
  obtain ⟨skb₂, _, hpush, _, _, _⟩ := PacketBuffer.push_of_room hroom
  cases hdir : frameDir (skb.header ieee80211Layout).iFc[1] <;>
    simp [portalMeshDevXmit, hstrip, hpush, hdir]

theorem portalMeshDevXmit_of_convertible (netifRx : ℤ) (h : Convertible skb) :
    if frameDir (skb.header ieee80211Layout).iFc[1] = .dstods then
      portalMeshDevXmit true netifRx skb = some (-1, [.freed])
    else ∃ frame, portalMeshDevXmit true netifRx skb = some (netifRx, [.netifRx frame]) := by
  rcases h with hlong | ⟨hshort, hroom⟩
  · obtain ⟨_, _, hstrip, hroom⟩ := stripHeaders_of_long hlong
    exact portalMeshDevXmit_of_strip hstrip hroom
  · have hsize : llcLayout.size ≤ ieee80211Layout.size := by decide
    have hstrip := stripHeaders_of_short (lt_of_lt_of_le hshort hsize)
    rw [if_neg (Nat.not_le.mpr hshort)] at hstrip
    exact portalMeshDevXmit_of_strip hstrip hroom

theorem portalMeshDevXmit_of_not_convertible (h : ¬Convertible skb) :
    portalMeshDevXmit portal netifRx skb = none := by
  simp only [Convertible, not_or, not_and, not_le] at h
  obtain ⟨hlong, hroom⟩ := h
  have hstrip := stripHeaders_of_short hlong
  unfold portalMeshDevXmit
  split_ifs
  · rfl
  · by_cases hllc : llcLayout.size ≤ skb.data.length
    · simp [hstrip, hllc]
    · have hpush : skb.push etherLayout.size = none :=
        if_neg (Nat.not_le.mpr (hroom (Nat.not_le.mp hllc)))
      simp [hstrip, hllc, hpush]

theorem honest_portal_iff :
    Honest (portalMeshDevXmit portal netifRx skb) ↔
      portal = true ∧ Convertible skb ∧
        frameDir (skb.header ieee80211Layout).iFc[1] ≠ .dstods ∧ netifRx = 0 := by
  cases portal with
  | false => simp [Honest, portalMeshDevXmit]
  | true =>
      by_cases hconv : Convertible skb
      · have hres := portalMeshDevXmit_of_convertible netifRx hconv
        split_ifs at hres with hdir
        · simp [Honest, hres, hdir]
        · obtain ⟨frame, hres⟩ := hres
          simp [Honest, hres, hconv, hdir]
      · simp [Honest, portalMeshDevXmit_of_not_convertible hconv, hconv]

end HandOff

/-- For every frame, device and driver: the frame is consumed once exactly when the device
is down or stopped, or the driver is honest about it. The portal is honest when it has a
frame that it can convert, that is not from one distribution system to another, and that
`netif_rx` answers with zero. -/
theorem queueXmit_once_iff (dev : XmitDevice) (skb : SkBuff) :
    (∀ hardStartXmit, ConsumedOnce (meshQueueXmit dev hardStartXmit skb) ↔
      dev.up = false ∨ dev.stopped = true ∨ Honest (hardStartXmit skb)) ∧
    ∀ portal netifRx, ConsumedOnce (meshQueueXmit dev (portalMeshDevXmit portal netifRx) skb) ↔
      dev.up = false ∨ dev.stopped = true ∨
        portal = true ∧ Convertible skb ∧
          frameDir (skb.header ieee80211Layout).iFc[1] ≠ .dstods ∧ netifRx = 0 := by
  refine ⟨consumedOnce_queueXmit_iff dev, ?_⟩
  intro portal netifRx
  rw [consumedOnce_queueXmit_iff, honest_portal_iff]

/-- A data frame without payload, with the given second byte of its frame control. -/
def bareFrame (fc1 : Byte) : SkBuff := tightSkb (0x08 :: fc1 :: List.replicate 22 0)

/-- A frame between distribution systems is freed by the portal and by its caller, and a
frame that `netif_rx` drops is freed after it was passed on. -/
theorem frames_consumed_twice :
    (∃ ret, meshQueueXmit ⟨true, false⟩ (portalMeshDevXmit true 0) (bareFrame 3) =
      some (ret, [.freed, .freed])) ∧
    ∃ ret frame, meshQueueXmit ⟨true, false⟩ (portalMeshDevXmit true 1) (bareFrame 0) =
      some (ret, [.netifRx frame, .freed]) := by
  have hconv : ∀ fc1, Convertible (bareFrame fc1) := by
    intro fc1
    left
    simp only [bareFrame, tightSkb, List.length_cons, List.length_replicate]
    decide
  have hdouble := portalMeshDevXmit_of_convertible 0 (hconv 3)
  have hdropped := portalMeshDevXmit_of_convertible 1 (hconv 0)
  rw [if_pos (by decide +kernel)] at hdouble
  rw [if_neg (by decide +kernel)] at hdropped
  obtain ⟨frame, hdropped⟩ := hdropped
  exact ⟨⟨_, queueXmit_of_refused hdouble (by decide)⟩,
    ⟨_, frame, queueXmit_of_refused hdropped (by decide)⟩⟩

end Mesh
end WirelessMesh
