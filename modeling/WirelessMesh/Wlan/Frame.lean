import WirelessMesh.Kernel
import Mathlib.Algebra.Ring.Nat
import Mathlib.Data.List.Basic
import Mathlib.Tactic.Common

/-!
# 802.11 frames in a socket buffer

The bytes of a frame as the 802.11 layer reads them: frame control, the addresses, the
sequence control, and behind them the fourth address and the QoS control when the
frame control says that they are there.
-/

namespace WirelessMesh
namespace Wlan

/-- A `sk_buff`: the room before the data, the data, the room behind it. -/
structure SkBuff where
  headroom : ℕ
  data : List Byte
  tailroom : ℕ
  deriving DecidableEq, Repr

variable (d : List Byte)

/-- `i_fc[0]`: version, type and subtype. -/
def iFc0 : Byte := d.getD 0 0

/-- `i_fc[1]`: direction and flags. -/
def iFc1 : Byte := d.getD 1 0

def iAddr1 : List Byte := (d.drop 4).take 6

def iAddr2 : List Byte := (d.drop 10).take 6

def iAddr3 : List Byte := (d.drop 16).take 6

def iSeq0 : Byte := d.getD 22 0

/-- `i_addr4` of `struct ieee80211_frame_addr4`. -/
def iAddr4 : List Byte := (d.drop 24).take 6

def fc0TypeMask : Byte := 0x0c
def fc0TypeData : Byte := 0x08
def fc0SubtypeQos : Byte := 0x80
def fc1DirMask : Byte := 0x03
def fc1DirDstods : Byte := 0x03
def seqFragMask : Byte := 0x0f

def isDstods : Bool := iFc1 d &&& fc1DirMask == fc1DirDstods

def qosHasSeq : Bool := iFc0 d &&& (fc0TypeMask ||| fc0SubtypeQos) == fc0TypeData ||| fc0SubtypeQos

/-- `i_qos[0]`, behind the fourth address when there is one. -/
def iQos0 : Byte := if isDstods d then d.getD 30 0 else d.getD 24 0

def hdrsize : ℕ := 24 + (if isDstods d then 6 else 0) + if qosHasSeq d then 2 else 0

def roundup4 (n : ℕ) : ℕ := (n + 3) / 4 * 4

/-- `ieee80211_hdrspace`: with `IEEE80211_F_DATAPAD` the header is padded to whole words. -/
def hdrspace (datapad : Bool) : ℕ := if datapad then roundup4 (hdrsize d) else hdrsize d

/-- The 802.11 header copied down into the room before it, and `iv` behind it. Without the room
`skb_push` panics, and there is no buffer. -/
def SkBuff.pushIv (skb : SkBuff) (hdrlen : ℕ) (iv : List Byte) : Option SkBuff :=
  if iv.length ≤ skb.headroom then
    some { headroom := skb.headroom - iv.length
           data := skb.data.take hdrlen ++ iv ++ skb.data.drop hdrlen
           tailroom := skb.tailroom }
  else none

/-- The 802.11 header copied up over the `header` bytes behind it, and `trailer` bytes cut off. -/
def SkBuff.strip (skb : SkBuff) (hdrlen header trailer : ℕ) : SkBuff where
  headroom := skb.headroom + header
  data := (skb.data.take hdrlen ++ skb.data.drop (hdrlen + header)).take
    (skb.data.length - header - trailer)
  tailroom := skb.tailroom + trailer

theorem SkBuff.pushIv_append {headroom : ℕ} (tailroom : ℕ) (hdr body : List Byte) {iv : List Byte}
    (hroom : iv.length ≤ headroom) :
    SkBuff.pushIv ⟨headroom, hdr ++ body, tailroom⟩ hdr.length iv =
      some ⟨headroom - iv.length, hdr ++ iv ++ body, tailroom⟩ := by
  rw [SkBuff.pushIv, if_pos hroom, List.take_left, List.drop_left]

theorem SkBuff.strip_append (headroom tailroom : ℕ) (hdr iv body mic : List Byte) :
    SkBuff.strip ⟨headroom, hdr ++ iv ++ body ++ mic, tailroom⟩ hdr.length iv.length mic.length =
      ⟨headroom + iv.length, hdr ++ body, tailroom + mic.length⟩ := by
  have hpre : (hdr ++ iv).length = hdr.length + iv.length := List.length_append
  have hlen : (hdr ++ iv ++ body ++ mic).length - iv.length - mic.length =
      (hdr ++ body).length := by
    simp only [List.length_append]
    omega
  rw [SkBuff.strip]
  simp only [hlen]
  rw [List.append_assoc (hdr ++ iv), List.drop_left' hpre, List.append_assoc hdr, List.take_left,
    ← List.append_assoc hdr body, List.take_left]

variable {d}

theorem le_hdrsize : 24 ≤ hdrsize d := by
  unfold hdrsize
  omega

/-! ## A header and what follows it -/

section Header

theorem getD_append_left {n : ℕ} (h : n < d.length) (x : List Byte) :
    (d ++ x).getD n 0 = d.getD n 0 := by
  simp only [List.getD_eq_getElem?_getD, List.getElem?_append_left h]

theorem take_drop_append {n m : ℕ} (h : n + m ≤ d.length) (x : List Byte) :
    ((d ++ x).drop n).take m = (d.drop n).take m := by
  rw [List.drop_append_of_le_length (by omega),
    List.take_append_of_le_length (by rw [List.length_drop]; omega)]

variable (hd : hdrsize d ≤ d.length) {x : List Byte}
include hd

theorem iFc0_append : iFc0 (d ++ x) = iFc0 d :=
  getD_append_left (by have := le_hdrsize (d := d); omega) x

theorem iFc1_append : iFc1 (d ++ x) = iFc1 d :=
  getD_append_left (by have := le_hdrsize (d := d); omega) x

theorem iAddr1_append : iAddr1 (d ++ x) = iAddr1 d :=
  take_drop_append (by have := le_hdrsize (d := d); omega) x

theorem iAddr2_append : iAddr2 (d ++ x) = iAddr2 d :=
  take_drop_append (by have := le_hdrsize (d := d); omega) x

theorem iAddr3_append : iAddr3 (d ++ x) = iAddr3 d :=
  take_drop_append (by have := le_hdrsize (d := d); omega) x

theorem iSeq0_append : iSeq0 (d ++ x) = iSeq0 d :=
  getD_append_left (by have := le_hdrsize (d := d); omega) x

theorem isDstods_append : isDstods (d ++ x) = isDstods d := by
  rw [isDstods, isDstods, iFc1_append hd]

theorem qosHasSeq_append : qosHasSeq (d ++ x) = qosHasSeq d := by
  rw [qosHasSeq, qosHasSeq, iFc0_append hd]

theorem hdrsize_append : hdrsize (d ++ x) = hdrsize d := by
  rw [hdrsize, hdrsize, isDstods_append hd, qosHasSeq_append hd]

theorem hdrspace_append (datapad : Bool) : hdrspace (d ++ x) datapad = hdrspace d datapad := by
  rw [hdrspace, hdrspace, hdrsize_append hd]

theorem iAddr4_append (h4 : isDstods d) : iAddr4 (d ++ x) = iAddr4 d := by
  apply take_drop_append
  rw [hdrsize, if_pos h4] at hd
  omega

theorem iQos0_append (hq : qosHasSeq d) : iQos0 (d ++ x) = iQos0 d := by
  rw [hdrsize, if_pos hq] at hd
  rw [iQos0, iQos0, isDstods, isDstods, iFc1, iFc1, getD_append_left (by omega)]
  split
  · next h4 =>
      rw [isDstods, iFc1, if_pos h4] at hd
      exact getD_append_left (by omega) x
  · exact getD_append_left (by omega) x

end Header

/-! ## Frames that are whole -/

structure DataFrame where
  hdr : List Byte
  body : List Byte
  complete : hdrsize hdr = hdr.length

def frameBody (data : List Byte) : List Byte := data.drop (hdrsize data)

theorem frameBody_append {hdr body : List Byte} (h : hdrsize hdr = hdr.length) :
    frameBody (hdr ++ body) = body := by
  rw [frameBody, hdrsize_append (Nat.le_of_eq h), h, List.drop_left]

end Wlan
end WirelessMesh
