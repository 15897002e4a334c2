import WirelessMesh.Lib.ReplayFilter
import WirelessMesh.Lib.Runs
import WirelessMesh.Wlan.Ccmp

/-!
# A key in use between two stations

One station sends frames with a CCMP key, the other receives with the same key. In
between the air may lose frames, deliver them late, in any order and any number of
times, and change the fields of their headers that the MIC does not cover.
-/

namespace WirelessMesh
namespace Wlan

open ReplayFilter

instance SameProtected.decidable (d d' : List Byte) : Decidable (SameProtected d d') :=
  decidable_of_iff
    (iFc0 d' &&& 0x8f = iFc0 d &&& 0x8f ∧ iFc1 d' &&& 0xc7 = iFc1 d &&& 0xc7 ∧
      iAddr1 d' = iAddr1 d ∧ iAddr2 d' = iAddr2 d ∧ iAddr3 d' = iAddr3 d ∧
      iSeq0 d' &&& seqFragMask = iSeq0 d &&& seqFragMask ∧ (isDstods d → iAddr4 d' = iAddr4 d) ∧
      (qosHasSeq d → iQos0 d' &&& 0x0f = iQos0 d &&& 0x0f))
    ⟨fun ⟨h₁, h₂, h₃, h₄, h₅, h₆, h₇, h₈⟩ => ⟨h₁, h₂, h₃, h₄, h₅, h₆, h₇, h₈⟩,
      fun ⟨h₁, h₂, h₃, h₄, h₅, h₆, h₇, h₈⟩ => ⟨h₁, h₂, h₃, h₄, h₅, h₆, h₇, h₈⟩⟩

/-- The two keys, the frames that were sent with the bytes that went on air for them, and
what the receiver handed on. -/
structure Channel where
  sender : Key CcmpCtx
  receiver : Key CcmpCtx
  air : List (DataFrame × List Byte)
  delivered : List (List Byte)

inductive ChannelEvent where
  /-- A frame is given to `ccmp_encap`, in a buffer with some room around it. -/
  | send (f : DataFrame) (headroom tailroom : ℕ) (keyid : Byte)
  /-- The frame that was sent as number `i` arrives, with a header that was changed on the way. -/
  | arrive (i : ℕ) (hdr : List Byte) (headroom tailroom : ℕ)

/-- The receiver gets the bytes `data` of the frame `f` behind the header `hdr`. -/
def Channel.receive (f : DataFrame) (data hdr : List Byte) (headroom tailroom : ℕ) (c : Channel) :
    Channel :=
  let r := ccmpDecap c.receiver ⟨headroom, hdr ++ data.drop f.hdr.length, tailroom⟩
  { c with receiver := r.1, delivered := c.delivered ++ (r.2.map SkBuff.data).toList }

/-- There is no next state when the sender panics, or when no such frame can arrive. -/
def Channel.step : ChannelEvent → Channel → Option Channel
  | .send f headroom tailroom keyid, c =>
      (ccmpEncap c.sender ⟨headroom, f.hdr ++ f.body, tailroom⟩ keyid).map fun r =>
        { c with sender := r.1, air := c.air ++ (r.2.map fun skb => (f, skb.data)).toList }
  | .arrive i hdr headroom tailroom, c =>
      c.air[i]?.bind fun e =>
        if SameProtected e.1.hdr hdr ∧ hdr.length = e.1.hdr.length then
          some (c.receive e.1 e.2 hdr headroom tailroom)
        else none

/-- The frame needs no padding, so that both ends agree where its header ends. -/
def ChannelEvent.Aligned (datapad : Bool) : ChannelEvent → Prop
  | .send f _ _ _ => hdrspace f.hdr datapad = f.hdr.length
  | .arrive _ _ _ _ => True

def airPn (e : DataFrame × List Byte) : ℕ := (ccmpPn (e.2.drop e.1.hdr.length)).toNat

/-! ## What each event does -/

section Steps

variable {c : Channel} {tfm : BlockCipher}

theorem airPn_ccmpFrame (f : DataFrame) (tsc : BitVec 64) (keyid : Byte)
    (htsc : tsc.toNat < 2 ^ 48) :
    airPn (f, ccmpFrame tfm f.hdr tsc keyid f.body) = tsc.toNat := by
  rw [airPn, ccmpFrame, List.append_assoc, List.drop_left, ccmpPn_ccmpIv, toNat_packetNumber,
    Nat.mod_eq_of_lt htsc]

/-- What is on air comes from this key, and the receiver stands at a mark in it. -/
structure Channel.Sound (tfm : BlockCipher) (datapad : Bool) (mark : ℕ) (c : Channel) : Prop where
  sender_sw : c.sender.swcrypt
  receiver_sw : c.receiver.swcrypt
  sender_tfm : c.sender.wkPrivate.ccTfm = tfm
  sender_pad : c.sender.wkPrivate.datapad = datapad
  receiver_tfm : c.receiver.wkPrivate.ccTfm = tfm
  framed : ∀ e ∈ c.air, ∃ tsc keyid, tsc.toNat < 2 ^ 48 ∧
    e.2 = ccmpFrame tfm e.1.hdr tsc keyid e.1.body
  link : Link (c.air.map airPn) (c.air.map fun e => e.1.body) (c.delivered.map frameBody)
    (c.sender.wkKeytsc.toNat + 1) c.receiver.wkKeyrsc.toNat mark

/-- An arriving frame is handed on exactly if it is at or behind the mark, which then moves
behind it. -/
theorem Channel.Sound.receive {datapad : Bool} {mark i : ℕ} {f : DataFrame} {data hdr : List Byte}
    (h : c.Sound tfm datapad mark) (hi : c.air[i]? = some (f, data))
    (hsame : SameProtected f.hdr hdr) (hlen : hdr.length = f.hdr.length)
    (headroom tailroom : ℕ) :
    (c.receive f data hdr headroom tailroom).delivered =
        c.delivered ++ (if mark ≤ i then [hdr ++ f.body] else []) ∧
      (c.receive f data hdr headroom tailroom).Sound tfm datapad
        (if mark ≤ i then i + 1 else mark) := by
  obtain ⟨tsc, keyid, htsc, hdata⟩ := h.framed _ (List.mem_of_getElem? hi)
  obtain rfl : data = ccmpFrame tfm f.hdr tsc keyid f.body := hdata
  have hpn : (c.air.map airPn)[i]? = some tsc.toNat := by
    rw [List.getElem?_map, hi, Option.map_some, airPn_ccmpFrame f tsc keyid htsc]
  have hfresh := h.link.stands.fresh i _ hpn
  have hnum : (packetNumber tsc).toNat = tsc.toNat := by
    rw [toNat_packetNumber, Nat.mod_eq_of_lt htsc]
  have hdec : ccmpDecap c.receiver ⟨headroom,
      hdr ++ (ccmpFrame tfm f.hdr tsc keyid f.body).drop f.hdr.length, tailroom⟩ =
      if packetNumber tsc ≤ c.receiver.wkKeyrsc then (c.receiver, none)
      else ({ c.receiver with wkKeyrsc := packetNumber tsc },
        some ⟨headroom + ccmpHeader, hdr ++ f.body, tailroom + ccmpTrailer⟩) :=
    ccmpDecap_ccmpFrame c.receiver headroom tailroom tsc keyid h.receiver_sw f.complete hsame hlen
      h.receiver_tfm
  have hle : packetNumber tsc ≤ c.receiver.wkKeyrsc ↔ ¬ mark ≤ i := by
    rw [← hfresh, BitVec.le_def, hnum, Nat.not_lt]
  by_cases hmark : mark ≤ i
  · rw [if_neg (fun hold => hle.mp hold hmark)] at hdec
    have hbody : frameBody (hdr ++ f.body) = f.body :=
      frameBody_append ((hsame.hdrsize_eq.trans f.complete).trans hlen.symm)
    have hat : (c.air.map fun e => e.1.body)[i]? = some f.body := by rw [List.getElem?_map, hi]; rfl
    rw [Channel.receive, hdec, if_pos hmark, if_pos hmark]
    refine ⟨rfl,
      { h with receiver_sw := h.receiver_sw, receiver_tfm := h.receiver_tfm, link := ?_ }⟩
    change Link _ _ ((c.delivered ++ [hdr ++ f.body]).map frameBody) _ (packetNumber tsc).toNat _
    rw [List.map_append, List.map_singleton, hbody, hnum]
    exact h.link.accept hpn hat hmark
  · rw [if_pos (hle.mpr hmark)] at hdec
    have hstep : c.receive f (ccmpFrame tfm f.hdr tsc keyid f.body) hdr headroom tailroom = c := by
      rw [Channel.receive, hdec]
      simp
    rw [hstep, if_neg hmark, if_neg hmark, List.append_nil]
    exact ⟨rfl, h⟩

/-- A frame that is sent goes on air with a number above all others, or there was no room for
its MIC and the number is left out. -/
theorem Channel.Sound.send {c' : Channel} {datapad : Bool} {mark : ℕ}
    (h : c.Sound tfm datapad mark) {f : DataFrame} {headroom tailroom : ℕ} {keyid : Byte}
    (hpad : hdrspace f.hdr datapad = f.hdr.length)
    (hlimit : c.sender.wkKeytsc.toNat + 1 < 2 ^ 48)
    (hstep : Channel.step (.send f headroom tailroom keyid) c = some c') :
    c'.Sound tfm datapad mark ∧ c'.sender.wkKeytsc.toNat = c.sender.wkKeytsc.toNat + 1 := by
  have htsc : (c.sender.wkKeytsc + 1).toNat = c.sender.wkKeytsc.toNat + 1 := by
    rw [BitVec.toNat_add, Nat.mod_eq_of_lt]
    · rfl
    · change c.sender.wkKeytsc.toNat + 1 < 2 ^ 64
      omega
  rw [Channel.step] at hstep
  rcases Nat.lt_or_ge headroom ccmpHeader with hhead | hhead
  · rw [ccmpEncap_of_no_headroom _ _ _ hhead] at hstep
    cases hstep
  rcases Nat.lt_or_ge tailroom ccmpTrailer with hroom | hroom
  · rw [ccmpEncap_of_no_room c.sender _ keyid h.sender_sw hhead hroom] at hstep
    obtain rfl := Option.some.inj hstep
    refine ⟨{ h with sender_sw := h.sender_sw, framed := ?_, link := ?_ }, htsc⟩
    · simpa using h.framed
    · simp only [Option.map_none, Option.toList_none, List.append_nil]
      rw [htsc]
      exact h.link.skip
  · set frame := ccmpFrame tfm f.hdr (c.sender.wkKeytsc + 1) keyid f.body with hframe
    have hpad' : hdrspace f.hdr c.sender.wkPrivate.datapad = f.hdr.length := by
      rw [h.sender_pad]
      exact hpad
    rw [ccmpEncap_eq c.sender keyid h.sender_sw f.complete hpad' hhead hroom,
      h.sender_tfm] at hstep
    obtain rfl := Option.some.inj hstep
    have hpn : airPn (f, frame) = c.sender.wkKeytsc.toNat + 1 := by
      rw [hframe, airPn_ccmpFrame f _ keyid (htsc ▸ hlimit), htsc]
    refine ⟨{ h with sender_sw := h.sender_sw, framed := ?_, link := ?_ }, htsc⟩
    · intro e he
      rcases List.mem_append.mp he with he | he
      · exact h.framed e he
      · obtain rfl := List.mem_singleton.mp he
        exact ⟨_, keyid, htsc ▸ hlimit, rfl⟩
    · change Link ((c.air ++ [(f, frame)]).map airPn) ((c.air ++ [(f, frame)]).map _) _
        ((c.sender.wkKeytsc + 1).toNat + 1) _ _
      rw [List.map_append, List.map_singleton, List.map_append, List.map_singleton, hpn, htsc]
      exact h.link.send f.body

end Steps

/-! ## Runs -/

theorem Channel.Sound.step {c c' : Channel} {tfm : BlockCipher} {datapad : Bool} {mark : ℕ}
    (h : c.Sound tfm datapad mark) {e : ChannelEvent} (he : e.Aligned datapad)
    (hlimit : c.sender.wkKeytsc.toNat + 1 < 2 ^ 48) (hstep : Channel.step e c = some c') :
    ∃ mark', c'.Sound tfm datapad mark' ∧
      c'.sender.wkKeytsc.toNat ≤ c.sender.wkKeytsc.toNat + 1 := by
  cases e with
  | send f headroom tailroom keyid =>
      obtain ⟨hsound, htsc⟩ := h.send he hlimit hstep
      exact ⟨mark, hsound, Nat.le_of_eq htsc⟩
  | arrive i hdr headroom tailroom =>
      obtain ⟨⟨f, data⟩, hi, hstep⟩ := Option.bind_eq_some_iff.mp hstep
      split_ifs at hstep with hsame
      obtain rfl := Option.some.inj hstep
      exact ⟨_, (h.receive hi hsame.1 hsame.2 headroom tailroom).2, Nat.le_succ _⟩

theorem Channel.Sound.visits {c c' : Channel} {tfm : BlockCipher} {datapad : Bool} {mark : ℕ}
    {events : List ChannelEvent} (h : c.Sound tfm datapad mark)
    (he : ∀ e ∈ events, e.Aligned datapad)
    (hlimit : c.sender.wkKeytsc.toNat + events.length < 2 ^ 48)
    (hvisits : Machine.Visits Channel.step c events c') : ∃ mark', c'.Sound tfm datapad mark' := by
  induction hvisits generalizing mark with
  | here => exact ⟨mark, h⟩
  | later hstep _ ih =>
      rw [List.length_cons] at hlimit
      obtain ⟨mark', hsound, htsc⟩ := h.step (he _ List.mem_cons_self) (by omega) hstep
      exact ih hsound (fun e' he' => he e' (List.mem_cons_of_mem _ he')) (by omega)

/-- Whatever the air does with the frames, the receiver hands on a part of the frames that
were sent, in the order in which they were sent and none of them twice, as long as the packet
numbers last; and the next frame that arrives is handed on exactly if it was sent after all
of those. -/
theorem ccmp_channel_in_order (start : Channel) (events : List ChannelEvent)
    (hstart : start.air = [] ∧ start.delivered = [])
    (hsender : start.sender.swcrypt) (hreceiver : start.receiver.swcrypt)
    (hkey : start.receiver.wkPrivate.ccTfm = start.sender.wkPrivate.ccTfm)
    (hcounters : start.receiver.wkKeyrsc.toNat ≤ start.sender.wkKeytsc.toNat)
    (haligned : ∀ e ∈ events, e.Aligned start.sender.wkPrivate.datapad)
    (hlimit : start.sender.wkKeytsc.toNat + events.length < 2 ^ 48) {c : Channel}
    (hvisits : Machine.Visits Channel.step start events c) :
    ∃ mark, (c.delivered.map frameBody).Sublist ((c.air.map fun e => e.1.body).take mark) ∧
      ∀ i f data hdr headroom tailroom, c.air[i]? = some (f, data) →
        SameProtected f.hdr hdr → hdr.length = f.hdr.length →
        (Channel.step (.arrive i hdr headroom tailroom) c).map Channel.delivered =
          some (c.delivered ++ if mark ≤ i then [hdr ++ f.body] else []) := by
  have hsound : start.Sound start.sender.wkPrivate.ccTfm start.sender.wkPrivate.datapad 0 := by
    obtain ⟨hair, hdel⟩ := hstart
    exact {
      sender_sw := hsender
      receiver_sw := hreceiver
      sender_tfm := rfl
      sender_pad := rfl
      receiver_tfm := hkey
      framed := by simp [hair]
      link := by
        rw [hair, hdel]
        exact Link.start (Nat.lt_succ_of_le hcounters) }
  obtain ⟨mark, h⟩ := hsound.visits haligned hlimit hvisits
  refine ⟨mark, h.link.taken, ?_⟩
  intro i f data hdr headroom tailroom hi hsame hlen
  rw [Channel.step, hi, Option.bind_some, if_pos ⟨hsame, hlen⟩, Option.map_some,
    (h.receive hi hsame hlen headroom tailroom).1]

def smallFrame (body : List Byte) : DataFrame where
  hdr := 0x08 :: 0x40 :: List.replicate 22 0
  body := body
  complete := rfl

/-- Two frames are sent; the second arrives first, then the first. -/
def overtaking : List ChannelEvent :=
  [.send (smallFrame [1, 2, 3]) 8 8 0, .send (smallFrame [4, 5]) 8 8 0,
    .arrive 1 (smallFrame []).hdr 0 0, .arrive 0 (smallFrame []).hdr 0 0]

theorem ccmp_channel_in_order_overtaking :
    ∃ c, Machine.Visits Channel.step ⟨padKey, padKey, [], []⟩ overtaking c ∧
      (c.air.map (fun e => e.1.body) = [[1, 2, 3], [4, 5]] ∧
        c.delivered.map frameBody = [[4, 5]]) ∧
      ∃ mark, (c.delivered.map frameBody).Sublist ((c.air.map fun e => e.1.body).take mark) ∧
        ∀ i f data hdr headroom tailroom, c.air[i]? = some (f, data) →
          SameProtected f.hdr hdr → hdr.length = f.hdr.length →
          (Channel.step (.arrive i hdr headroom tailroom) c).map Channel.delivered =
            some (c.delivered ++ if mark ≤ i then [hdr ++ f.body] else []) := by
  obtain ⟨c, hvisits, hbodies⟩ :
      ∃ c, Machine.Visits Channel.step ⟨padKey, padKey, [], []⟩ overtaking c ∧
        c.air.map (fun e => e.1.body) = [[1, 2, 3], [4, 5]] ∧
        c.delivered.map frameBody = [[4, 5]] :=
    Machine.exists_visits (by decide +kernel)
  refine ⟨c, hvisits, hbodies, ?_⟩
  exact ccmp_channel_in_order ⟨padKey, padKey, [], []⟩ overtaking ⟨rfl, rfl⟩ rfl rfl rfl
    (Nat.le_refl _)
    (by simpa only [overtaking, List.forall_mem_cons] using ⟨rfl, rfl, trivial, trivial, by simp⟩)
    (by decide) hvisits

end Wlan
end WirelessMesh
