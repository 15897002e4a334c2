import WirelessMesh.Lib.StreamCipher
import WirelessMesh.Wlan.Key

/-!
# AES-CCM

`ccmp_encap` puts the packet number behind the 802.11 header, encrypts the body with
counter blocks and appends a MIC over header and body; `ccmp_decap` refuses old packet
numbers, decrypts, compares the MIC and takes header and MIC off again. The block
cipher behind `rijndael_encrypt` is any function on blocks.
-/

namespace WirelessMesh
namespace Wlan

open StreamCipher

def aesBlockLen : ℕ := 16

/-- `ccmp.ic_header` and `ccmp.ic_trailer`. -/
def ccmpHeader : ℕ := 8
def ccmpTrailer : ℕ := 8

/-- A keyed `crypto_tfm`: it writes a whole block. -/
structure BlockCipher where
  encrypt : List Byte → List Byte
  length_encrypt : ∀ b, (encrypt b).length = aesBlockLen

/-- `struct ccmp_ctx`: the cipher with its key, and whether `IEEE80211_F_DATAPAD` is set. -/
structure CcmpCtx where
  ccTfm : BlockCipher
  datapad : Bool

/-! ## The blocks before the first one of the body -/

def ccmpPrio (wh : List Byte) : Byte := if qosHasSeq wh then iQos0 wh &&& 0x0f else 0

/-- The nonce part of the first block: priority, transmitter and packet number. -/
def ccmpNonce (wh : List Byte) (pn : BitVec 64) : List Byte :=
  ccmpPrio wh :: iAddr2 wh ++
    [pn.extractLsb' 40 8, pn.extractLsb' 32 8, pn.extractLsb' 24 8, pn.extractLsb' 16 8,
      pn.extractLsb' 8 8, pn.extractLsb' 0 8]

/-- `aad`: what the MIC covers of the header, padded to two blocks. -/
def ccmpAad (wh : List Byte) : List Byte :=
  let len : Byte := 22 + (if isDstods wh then 6 else 0) + if qosHasSeq wh then 2 else 0
  [0, len, iFc0 wh &&& 0x8f, iFc1 wh &&& 0xc7] ++ iAddr1 wh ++ iAddr2 wh ++ iAddr3 wh ++
    [iSeq0 wh &&& seqFragMask, 0] ++
    if isDstods wh then iAddr4 wh ++ [ccmpPrio wh, 0] else [ccmpPrio wh, 0, 0, 0, 0, 0, 0, 0]

def ccmpCounter (wh : List Byte) (pn : BitVec 64) (i : ℕ) : List Byte :=
  (0x59 &&& 0x07) :: ccmpNonce wh pn ++ [BitVec.ofNat 8 (i >>> 8), BitVec.ofNat 8 i]

/-- The authentication block `ccmp_init_blocks` starts with. -/
def ccmpInitAuth (tfm : BlockCipher) (wh : List Byte) (pn : BitVec 64) (dlen : ℕ) : List Byte :=
  let b0 := 0x59 :: ccmpNonce wh pn ++ [BitVec.ofNat 8 (dlen >>> 8), BitVec.ofNat 8 dlen]
  let auth := tfm.encrypt b0
  let auth := tfm.encrypt (xorBlock auth (ccmpAad wh) aesBlockLen)
  tfm.encrypt (xorBlock auth ((ccmpAad wh).drop aesBlockLen) aesBlockLen)

/-! ## The body -/

def ccmpBlockLen (dlen i : ℕ) : ℕ :=
  if i = (dlen + aesBlockLen - 1) / aesBlockLen ∧ dlen % aesBlockLen ≠ 0 then dlen % aesBlockLen
  else aesBlockLen

def ccmpBlocks (dlen : ℕ) : List ℕ := List.range' 1 ((dlen + aesBlockLen - 1) / aesBlockLen)

/-- The loop of `ccmp_encrypt`: `ctr` gives the counter blocks, `b` is the authentication
block and `pos` what is still to be encrypted. -/
def ccmpEncryptBlocks (tfm : BlockCipher) (ctr : ℕ → List Byte) (len : ℕ → ℕ) :
    List ℕ → List Byte → List Byte → List Byte × List Byte
  | [], b, pos => (b, pos)
  | i :: is, b, pos =>
      let b := tfm.encrypt (xorBlock b pos (len i))
      let pos := xorBlock pos (tfm.encrypt (ctr i)) (len i)
      let rest := ccmpEncryptBlocks tfm ctr len is b (pos.drop (len i))
      (rest.1, pos.take (len i) ++ rest.2)

/-- The loop of `ccmp_decrypt`. -/
def ccmpDecryptBlocks (tfm : BlockCipher) (ctr : ℕ → List Byte) (len : ℕ → ℕ) :
    List ℕ → List Byte → List Byte → List Byte × List Byte
  | [], a, pos => (a, pos)
  | i :: is, a, pos =>
      let pos := xorBlock pos (tfm.encrypt (ctr i)) (len i)
      let a := tfm.encrypt (xorBlock a pos (len i))
      let rest := ccmpDecryptBlocks tfm ctr len is a (pos.drop (len i))
      (rest.1, pos.take (len i) ++ rest.2)

def ccmpEncrypt (k : Key CcmpCtx) (skb : SkBuff) (hdrlen : ℕ) : Option SkBuff :=
  let tfm := k.wkPrivate.ccTfm
  let wh := skb.data
  let pn := k.wkKeytsc
  if skb.tailroom < ccmpTrailer then none
  else
    let dlen := wh.length - (hdrlen + ccmpHeader)
    let body := ccmpEncryptBlocks tfm (ccmpCounter wh pn) (ccmpBlockLen dlen) (ccmpBlocks dlen)
      (ccmpInitAuth tfm wh pn dlen) (wh.drop (hdrlen + ccmpHeader))
    let s0 := tfm.encrypt (ccmpCounter wh pn 0)
    let mic := xorBlock (body.1.take ccmpTrailer) s0 ccmpTrailer
    some { skb with
      data := wh.take (hdrlen + ccmpHeader) ++ body.2 ++ mic
      tailroom := skb.tailroom - ccmpTrailer }

def ccmpDecrypt (k : Key CcmpCtx) (pn : BitVec 64) (skb : SkBuff) (hdrlen : ℕ) : Option SkBuff :=
  let tfm := k.wkPrivate.ccTfm
  let wh := skb.data
  let dlen := wh.length - (hdrlen + ccmpHeader + ccmpTrailer)
  let s0 := tfm.encrypt (ccmpCounter wh pn 0)
  let mic := xorBlock (wh.drop (wh.length - ccmpTrailer)) s0 ccmpTrailer
  let body := ccmpDecryptBlocks tfm (ccmpCounter wh pn) (ccmpBlockLen dlen) (ccmpBlocks dlen)
    (ccmpInitAuth tfm wh pn dlen) ((wh.drop (hdrlen + ccmpHeader)).take dlen)
  if mic = body.1.take ccmpTrailer then
    some { skb with data := wh.take (hdrlen + ccmpHeader) ++ body.2 ++ mic }
  else none

/-! ## Encapsulation -/

def ccmpIv (tsc : BitVec 64) (keyid : Byte) : List Byte :=
  [tsc.extractLsb' 0 8, tsc.extractLsb' 8 8, 0, keyid ||| wepExtiv,
    tsc.extractLsb' 16 8, tsc.extractLsb' 24 8, tsc.extractLsb' 32 8, tsc.extractLsb' 40 8]

/-- `ccmp_encap`. The counter moves on also when there is no room for the MIC. -/
def ccmpEncap (k : Key CcmpCtx) (skb : SkBuff) (keyid : Byte) :
    Option (Key CcmpCtx × Option SkBuff) :=
  let hdrlen := hdrspace skb.data k.wkPrivate.datapad
  let k := { k with wkKeytsc := k.wkKeytsc + 1 }
  (skb.pushIv hdrlen (ccmpIv k.wkKeytsc keyid)).map fun skb =>
    (k, if k.swcrypt then ccmpEncrypt k skb hdrlen else some skb)

def ccmpPn (ivp : List Byte) : BitVec 64 :=
  read6 (ivp.getD 0 0) (ivp.getD 1 0) (ivp.getD 4 0) (ivp.getD 5 0) (ivp.getD 6 0) (ivp.getD 7 0)

def ccmpDecap (k : Key CcmpCtx) (skb : SkBuff) : Key CcmpCtx × Option SkBuff :=
  let hdrlen := hdrsize skb.data
  let ivp := skb.data.drop hdrlen
  if ivp.getD 3 0 &&& wepExtiv = 0 then (k, none)
  else
    let pn := ccmpPn ivp
    if pn ≤ k.wkKeyrsc then (k, none)
    else
      match if k.swcrypt then ccmpDecrypt k pn skb hdrlen else some skb with
      | none => (k, none)
      | some skb => ({ k with wkKeyrsc := pn }, some (skb.strip hdrlen ccmpHeader ccmpTrailer))

/-! ## What the MIC covers of the header -/

/-- Two headers that differ at most in what may change on the way: the duration, the bits
for retry, power management and more data, the sequence number, the rest of the QoS
control. -/
structure SameProtected (d d' : List Byte) : Prop where
  fc0 : iFc0 d' &&& 0x8f = iFc0 d &&& 0x8f
  fc1 : iFc1 d' &&& 0xc7 = iFc1 d &&& 0xc7
  addr1 : iAddr1 d' = iAddr1 d
  addr2 : iAddr2 d' = iAddr2 d
  addr3 : iAddr3 d' = iAddr3 d
  frag : iSeq0 d' &&& seqFragMask = iSeq0 d &&& seqFragMask
  addr4 : isDstods d → iAddr4 d' = iAddr4 d
  prio : qosHasSeq d → iQos0 d' &&& 0x0f = iQos0 d &&& 0x0f

variable {d d' : List Byte}

theorem SameProtected.isDstods_eq (h : SameProtected d d') : isDstods d' = isDstods d := by
  have hmask (x : Byte) : x &&& fc1DirMask = (x &&& 0xc7) &&& fc1DirMask := by
    rw [BitVec.and_assoc]
    rfl
  rw [isDstods, isDstods, hmask, h.fc1, ← hmask]

theorem SameProtected.qosHasSeq_eq (h : SameProtected d d') : qosHasSeq d' = qosHasSeq d := by
  have hmask (x : Byte) : x &&& (fc0TypeMask ||| fc0SubtypeQos) =
      (x &&& 0x8f) &&& (fc0TypeMask ||| fc0SubtypeQos) := by
    rw [BitVec.and_assoc]
    rfl
  rw [qosHasSeq, qosHasSeq, hmask, h.fc0, ← hmask]

theorem SameProtected.hdrsize_eq (h : SameProtected d d') : hdrsize d' = hdrsize d := by
  rw [hdrsize, hdrsize, h.isDstods_eq, h.qosHasSeq_eq]

theorem SameProtected.prio_eq (h : SameProtected d d') : ccmpPrio d' = ccmpPrio d := by
  rw [ccmpPrio, ccmpPrio, h.qosHasSeq_eq]
  by_cases hq : qosHasSeq d
  · rw [if_pos hq, if_pos hq, h.prio hq]
  · rw [if_neg hq, if_neg hq]

theorem SameProtected.nonce_eq (h : SameProtected d d') (pn : BitVec 64) :
    ccmpNonce d' pn = ccmpNonce d pn := by
  rw [ccmpNonce, ccmpNonce, h.prio_eq, h.addr2]

theorem SameProtected.aad_eq (h : SameProtected d d') : ccmpAad d' = ccmpAad d := by
  have htail : (if isDstods d' then iAddr4 d' ++ [ccmpPrio d', 0] else
      [ccmpPrio d', 0, 0, 0, 0, 0, 0, 0]) = if isDstods d then iAddr4 d ++ [ccmpPrio d, 0] else
      [ccmpPrio d, 0, 0, 0, 0, 0, 0, 0] := by
    rw [h.isDstods_eq, h.prio_eq]
    by_cases h4 : isDstods d
    · rw [if_pos h4, if_pos h4, h.addr4 h4]
    · rw [if_neg h4, if_neg h4]
  rw [ccmpAad, htail, h.isDstods_eq, h.qosHasSeq_eq, h.fc0, h.fc1, h.addr1, h.addr2, h.addr3,
    h.frag]
  rfl

theorem SameProtected.initAuth_eq (h : SameProtected d d') (tfm : BlockCipher) (pn : BitVec 64)
    (dlen : ℕ) : ccmpInitAuth tfm d' pn dlen = ccmpInitAuth tfm d pn dlen := by
  rw [ccmpInitAuth, ccmpInitAuth, h.nonce_eq, h.aad_eq]

theorem SameProtected.counter_eq (h : SameProtected d d') (pn : BitVec 64) :
    ccmpCounter d' pn = ccmpCounter d pn := by
  funext i
  rw [ccmpCounter, ccmpCounter, h.nonce_eq]

theorem SameProtected.append (h : SameProtected d d') (hd : hdrsize d ≤ d.length)
    (hd' : hdrsize d' ≤ d'.length) (x x' : List Byte) : SameProtected (d ++ x) (d' ++ x') where
  fc0 := by rw [iFc0_append hd, iFc0_append hd', h.fc0]
  fc1 := by rw [iFc1_append hd, iFc1_append hd', h.fc1]
  addr1 := by rw [iAddr1_append hd, iAddr1_append hd', h.addr1]
  addr2 := by rw [iAddr2_append hd, iAddr2_append hd', h.addr2]
  addr3 := by rw [iAddr3_append hd, iAddr3_append hd', h.addr3]
  frag := by rw [iSeq0_append hd, iSeq0_append hd', h.frag]
  addr4 h4 := by
    rw [isDstods_append hd] at h4
    rw [iAddr4_append hd h4, iAddr4_append hd' (h.isDstods_eq.trans h4), h.addr4 h4]
  prio hq := by
    rw [qosHasSeq_append hd] at hq
    rw [iQos0_append hd hq, iQos0_append hd' (h.qosHasSeq_eq.trans hq), h.prio hq]

theorem SameProtected.refl (d : List Byte) : SameProtected d d :=
  ⟨rfl, rfl, rfl, rfl, rfl, rfl, fun _ => rfl, fun _ => rfl⟩

theorem sameProtected_append (hd : hdrsize d ≤ d.length) (x : List Byte) :
    SameProtected d (d ++ x) := by
  simpa using (SameProtected.refl d).append hd hd [] x

/-! ## Decryption undoes encryption -/

section Blocks

variable {tfm : BlockCipher} {ctr : ℕ → List Byte} {len : ℕ → ℕ}

theorem length_ccmpEncryptBlocks (is : List ℕ) (b pos : List Byte)
    (hlen : ∀ i ∈ is, len i ≤ aesBlockLen) (hfit : (is.map len).sum ≤ pos.length) :
    (ccmpEncryptBlocks tfm ctr len is b pos).2.length = pos.length := by
  induction is generalizing b pos with
  | nil => rfl
  | cons i is ih =>
      have hi := hlen i List.mem_cons_self
      rw [List.map_cons, List.sum_cons] at hfit
      have he : len i ≤ (tfm.encrypt (ctr i)).length := by rwa [tfm.length_encrypt]
      have hrest : (is.map len).sum ≤ (pos.drop (len i)).length := by
        rw [List.length_drop]
        omega
      simp only [ccmpEncryptBlocks, List.length_append, List.length_take, length_xorBlock he,
        drop_xorBlock (by omega : len i ≤ pos.length) he]
      rw [ih _ _ (fun j hj => hlen j (List.mem_cons_of_mem i hj)) hrest, List.length_drop]
      omega

/-- Both loops pass through the same authentication blocks, and the second one gives the
text back. -/
theorem ccmpDecryptBlocks_ccmpEncryptBlocks (is : List ℕ) (b pos : List Byte)
    (hlen : ∀ i ∈ is, len i ≤ aesBlockLen) (hfit : (is.map len).sum ≤ pos.length) :
    ccmpDecryptBlocks tfm ctr len is b (ccmpEncryptBlocks tfm ctr len is b pos).2 =
      ((ccmpEncryptBlocks tfm ctr len is b pos).1, pos) := by
  induction is generalizing b pos with
  | nil => rfl
  | cons i is ih =>
      have hi := hlen i List.mem_cons_self
      rw [List.map_cons, List.sum_cons] at hfit
      have hp : len i ≤ pos.length := by omega
      have he : len i ≤ (tfm.encrypt (ctr i)).length := by rwa [tfm.length_encrypt]
      have hrest : (is.map len).sum ≤ (pos.drop (len i)).length := by
        rw [List.length_drop]
        omega
      have hlen' : ∀ j ∈ is, len j ≤ aesBlockLen := fun j hj => hlen j (List.mem_cons_of_mem i hj)
      have htake : (pos.take (len i)).length = len i := List.length_take_of_le hp
      simp only [ccmpEncryptBlocks, ccmpDecryptBlocks, drop_xorBlock hp he,
        xorBlock_take_append hp he, List.drop_left' htake, List.take_left' htake]
      -- the MIC takes the same bytes in: the text before encryption and after decryption
      rw [xorBlock_congr (c := pos) (List.take_left' htake), ih _ _ hlen' hrest,
        List.take_append_drop]

theorem ccmpBlockLen_le (dlen i : ℕ) : ccmpBlockLen dlen i ≤ aesBlockLen := by
  unfold ccmpBlockLen aesBlockLen
  split <;> omega

theorem sum_ccmpBlockLen_le (dlen : ℕ) :
    ((ccmpBlocks dlen).map (ccmpBlockLen dlen)).sum ≤ dlen := by
  have hpart : ∀ m ≤ (dlen + aesBlockLen - 1) / aesBlockLen,
      ((List.range' 1 m).map (ccmpBlockLen dlen)).sum ≤ dlen ∧
        ((List.range' 1 m).map (ccmpBlockLen dlen)).sum ≤ aesBlockLen * m := by
    intro m hm
    induction m with
    | zero => simp
    | succ m ih =>
        obtain ⟨-, hsum⟩ := ih (by omega)
        rw [List.range'_concat, List.map_append, List.sum_append, List.map_singleton,
          List.sum_singleton, Nat.one_mul]
        have hlast : ccmpBlockLen dlen (1 + m) ≤ dlen - aesBlockLen * m ∧
            ccmpBlockLen dlen (1 + m) ≤ aesBlockLen := by
          unfold ccmpBlockLen aesBlockLen at *
          split <;> omega
        unfold aesBlockLen at *
        omega
  exact (hpart _ (Nat.le_refl _)).1

end Blocks

section Frames

variable {tfm : BlockCipher} {hdr hdr' iv body : List Byte} {pn : BitVec 64}

theorem length_ccmpInitAuth (dlen : ℕ) : (ccmpInitAuth tfm hdr pn dlen).length = aesBlockLen :=
  tfm.length_encrypt _

theorem length_ccmpEncryptBlocks_fst {ctr : ℕ → List Byte} {len : ℕ → ℕ} (is : List ℕ)
    {b : List Byte} (hb : b.length = aesBlockLen) (pos : List Byte) :
    (ccmpEncryptBlocks tfm ctr len is b pos).1.length = aesBlockLen := by
  induction is generalizing b pos with
  | nil => exact hb
  | cons i is ih => exact ih (tfm.length_encrypt _) _

def ccmpMac (tfm : BlockCipher) (hdr : List Byte) (pn : BitVec 64) (body : List Byte) :
    List Byte :=
  (ccmpEncryptBlocks tfm (ccmpCounter hdr pn) (ccmpBlockLen body.length)
    (ccmpBlocks body.length) (ccmpInitAuth tfm hdr pn body.length) body).1

def ccmpText (tfm : BlockCipher) (hdr : List Byte) (pn : BitVec 64) (body : List Byte) :
    List Byte :=
  (ccmpEncryptBlocks tfm (ccmpCounter hdr pn) (ccmpBlockLen body.length)
    (ccmpBlocks body.length) (ccmpInitAuth tfm hdr pn body.length) body).2

theorem length_ccmpMac : ((ccmpMac tfm hdr pn body).take ccmpTrailer).length = ccmpTrailer := by
  rw [List.length_take, ccmpMac, length_ccmpEncryptBlocks_fst _ (length_ccmpInitAuth _)]
  rfl

theorem length_ccmpText : (ccmpText tfm hdr pn body).length = body.length :=
  length_ccmpEncryptBlocks _ _ _ (fun i _ => ccmpBlockLen_le _ i) (sum_ccmpBlockLen_le _)

theorem ccmpTrailer_le_encrypt (b : List Byte) : ccmpTrailer ≤ (tfm.encrypt b).length := by
  rw [tfm.length_encrypt]
  decide

def ccmpTag (tfm : BlockCipher) (hdr : List Byte) (pn : BitVec 64) (body : List Byte) :
    List Byte :=
  xorBlock ((ccmpMac tfm hdr pn body).take ccmpTrailer) (tfm.encrypt (ccmpCounter hdr pn 0))
    ccmpTrailer

theorem length_ccmpTag : (ccmpTag tfm hdr pn body).length = ccmpTrailer := by
  rw [ccmpTag, length_xorBlock (ccmpTrailer_le_encrypt _), length_ccmpMac]

theorem xorBlock_ccmpTag : xorBlock (ccmpTag tfm hdr pn body)
    (tfm.encrypt (ccmpCounter hdr pn 0)) ccmpTrailer =
      (ccmpMac tfm hdr pn body).take ccmpTrailer :=
  xorBlock_xorBlock (Nat.le_of_eq length_ccmpMac.symm) (ccmpTrailer_le_encrypt _)

theorem ccmpDecryptBlocks_ccmpText :
    ccmpDecryptBlocks tfm (ccmpCounter hdr pn) (ccmpBlockLen body.length)
      (ccmpBlocks body.length) (ccmpInitAuth tfm hdr pn body.length) (ccmpText tfm hdr pn body) =
      (ccmpMac tfm hdr pn body, body) :=
  ccmpDecryptBlocks_ccmpEncryptBlocks _ _ _ (fun i _ => ccmpBlockLen_le _ i)
    (sum_ccmpBlockLen_le _)

theorem ccmpEncrypt_eq (k : Key CcmpCtx) {headroom tailroom : ℕ} (hd : hdrsize hdr = hdr.length)
    (hiv : iv.length = ccmpHeader) (hroom : ccmpTrailer ≤ tailroom) :
    ccmpEncrypt k ⟨headroom, hdr ++ iv ++ body, tailroom⟩ hdr.length =
      some ⟨headroom, hdr ++ iv ++ (ccmpText k.wkPrivate.ccTfm hdr k.wkKeytsc body ++
        ccmpTag k.wkPrivate.ccTfm hdr k.wkKeytsc body), tailroom - ccmpTrailer⟩ := by
  have hsame : SameProtected hdr (hdr ++ (iv ++ body)) := sameProtected_append (Nat.le_of_eq hd) _
  have hpre : (hdr ++ iv).length = hdr.length + ccmpHeader := by rw [List.length_append, hiv]
  have hdlen : (hdr ++ iv ++ body).length - (hdr.length + ccmpHeader) = body.length := by
    rw [List.length_append, hpre]
    omega
  rw [ccmpEncrypt, if_neg (by simpa using hroom)]
  simp only [hdlen, List.drop_left' hpre, List.take_left' hpre]
  simp only [List.append_assoc, hsame.counter_eq, hsame.initAuth_eq, ccmpText, ccmpTag, ccmpMac]

/-- Whoever receives text and MIC behind a header with the same protected fields gets the
body; the bare MIC stays behind it. -/
theorem ccmpDecrypt_of_sealed (k : Key CcmpCtx) {headroom tailroom : ℕ}
    (hd : hdrsize hdr = hdr.length) (h : SameProtected hdr hdr')
    (hd' : hdr'.length = hdr.length) (hiv : iv.length = ccmpHeader)
    (htfm : k.wkPrivate.ccTfm = tfm) :
    ccmpDecrypt k pn ⟨headroom, hdr' ++ iv ++ (ccmpText tfm hdr pn body ++ ccmpTag tfm hdr pn body),
        tailroom⟩ hdr'.length = some ⟨headroom, hdr' ++ iv ++ body ++
          (ccmpMac tfm hdr pn body).take ccmpTrailer, tailroom⟩ := by
  have hsize' : hdrsize hdr' ≤ hdr'.length := Nat.le_of_eq ((h.hdrsize_eq.trans hd).trans hd'.symm)
  have hsame (x : List Byte) : SameProtected hdr (hdr' ++ x) := by
    simpa using h.append (Nat.le_of_eq hd) hsize' [] x
  have hpre : (hdr' ++ iv).length = hdr'.length + ccmpHeader := by rw [List.length_append, hiv]
  have htext : (ccmpText tfm hdr pn body).length = body.length := length_ccmpText
  have htag : (ccmpTag tfm hdr pn body).length = ccmpTrailer := length_ccmpTag
  set text := ccmpText tfm hdr pn body
  set tag := ccmpTag tfm hdr pn body with htagdef
  have hlen : (hdr' ++ iv ++ (text ++ tag)).length =
      hdr'.length + ccmpHeader + ccmpTrailer + body.length := by
    rw [List.length_append, hpre, List.length_append, htext, htag]
    omega
  have hdlen : (hdr' ++ iv ++ (text ++ tag)).length -
      (hdr'.length + ccmpHeader + ccmpTrailer) = body.length := by omega
  have hlast : (hdr' ++ iv ++ (text ++ tag)).drop
      ((hdr' ++ iv ++ (text ++ tag)).length - ccmpTrailer) = tag := by
    rw [← List.append_assoc]
    apply List.drop_left'
    simp only [List.length_append, htag]
    omega
  simp only [ccmpDecrypt, htfm, hdlen, hlast, List.drop_left' hpre, List.take_left' hpre,
    List.take_left' htext]
  rw [List.append_assoc hdr' iv, (hsame _).counter_eq, (hsame _).initAuth_eq,
    ccmpDecryptBlocks_ccmpText, xorBlock_ccmpTag, if_pos rfl]

/-! ### The packet number -/

theorem extractLsb'_packetNumber (tsc : BitVec 64) {n : ℕ} (hn : n ≤ 40) :
    (packetNumber tsc).extractLsb' n 8 = tsc.extractLsb' n 8 := by
  ext i hi
  simp only [packetNumber, BitVec.getElem_extractLsb', BitVec.getLsbD_setWidth,
    BitVec.getLsbD_extractLsb']
  grind

@[simp] theorem ccmpNonce_packetNumber (tsc : BitVec 64) :
    ccmpNonce hdr (packetNumber tsc) = ccmpNonce hdr tsc := by
  simp only [ccmpNonce, extractLsb'_packetNumber tsc (show 40 ≤ 40 by decide),
    extractLsb'_packetNumber tsc (show 32 ≤ 40 by decide),
    extractLsb'_packetNumber tsc (show 24 ≤ 40 by decide),
    extractLsb'_packetNumber tsc (show 16 ≤ 40 by decide),
    extractLsb'_packetNumber tsc (show 8 ≤ 40 by decide),
    extractLsb'_packetNumber tsc (show 0 ≤ 40 by decide)]

@[simp] theorem ccmpCounter_packetNumber (tsc : BitVec 64) :
    ccmpCounter hdr (packetNumber tsc) = ccmpCounter hdr tsc := by
  funext i
  rw [ccmpCounter, ccmpCounter, ccmpNonce_packetNumber]

@[simp] theorem ccmpInitAuth_packetNumber (tsc : BitVec 64) (dlen : ℕ) :
    ccmpInitAuth tfm hdr (packetNumber tsc) dlen = ccmpInitAuth tfm hdr tsc dlen := by
  rw [ccmpInitAuth, ccmpInitAuth, ccmpNonce_packetNumber]

theorem ccmpText_packetNumber (tsc : BitVec 64) :
    ccmpText tfm hdr (packetNumber tsc) body = ccmpText tfm hdr tsc body := by
  simp [ccmpText]

theorem ccmpTag_packetNumber (tsc : BitVec 64) :
    ccmpTag tfm hdr (packetNumber tsc) body = ccmpTag tfm hdr tsc body := by
  simp [ccmpTag, ccmpMac]

theorem ccmpPn_ccmpIv (tsc : BitVec 64) (keyid : Byte) (rest : List Byte) :
    ccmpPn (ccmpIv tsc keyid ++ rest) = packetNumber tsc :=
  read6_extractLsb' tsc

theorem extiv_ccmpIv (tsc : BitVec 64) (keyid : Byte) (rest : List Byte) :
    (ccmpIv tsc keyid ++ rest).getD 3 0 &&& wepExtiv ≠ 0 :=
  or_extiv_and_extiv_ne keyid

/-! ### Both ends -/

/-- The frame that `ccmp_encap` puts on air. -/
def ccmpFrame (tfm : BlockCipher) (hdr : List Byte) (tsc : BitVec 64) (keyid : Byte)
    (body : List Byte) : List Byte :=
  hdr ++ ccmpIv tsc keyid ++ (ccmpText tfm hdr tsc body ++ ccmpTag tfm hdr tsc body)

theorem ccmpEncap_eq (k : Key CcmpCtx) {headroom tailroom : ℕ} (keyid : Byte)
    (hsw : k.swcrypt) (hd : hdrsize hdr = hdr.length)
    (hpad : hdrspace hdr k.wkPrivate.datapad = hdr.length) (hhead : ccmpHeader ≤ headroom)
    (hroom : ccmpTrailer ≤ tailroom) :
    ccmpEncap k ⟨headroom, hdr ++ body, tailroom⟩ keyid =
      some ({ k with wkKeytsc := k.wkKeytsc + 1 }, some ⟨headroom - ccmpHeader,
        ccmpFrame k.wkPrivate.ccTfm hdr (k.wkKeytsc + 1) keyid body, tailroom - ccmpTrailer⟩) := by
  have hiv : (ccmpIv (k.wkKeytsc + 1) keyid).length ≤ headroom := hhead
  have hpush := SkBuff.pushIv_append tailroom hdr body hiv
  simp only [ccmpEncap, hdrspace_append (Nat.le_of_eq hd), hpad, hpush, hsw, if_true,
    Option.map_some]
  rw [ccmpEncrypt_eq _ hd rfl hroom]
  rfl

theorem ccmpEncap_of_no_room (k : Key CcmpCtx) (skb : SkBuff) (keyid : Byte)
    (hsw : k.swcrypt) (hhead : ccmpHeader ≤ skb.headroom) (hroom : skb.tailroom < ccmpTrailer) :
    ccmpEncap k skb keyid = some ({ k with wkKeytsc := k.wkKeytsc + 1 }, none) := by
  have hiv : (ccmpIv (k.wkKeytsc + 1) keyid).length ≤ skb.headroom := hhead
  simp only [ccmpEncap, SkBuff.pushIv, if_pos hiv, Option.map_some, hsw, if_true, ccmpEncrypt,
    hroom]

theorem ccmpEncap_of_no_headroom (k : Key CcmpCtx) (skb : SkBuff) (keyid : Byte)
    (hhead : skb.headroom < ccmpHeader) : ccmpEncap k skb keyid = none := by
  have hiv : ¬(ccmpIv (k.wkKeytsc + 1) keyid).length ≤ skb.headroom := Nat.not_le.mpr hhead
  rw [ccmpEncap, SkBuff.pushIv, if_neg hiv]
  rfl

/-- What `ccmp_decap` does with a frame that `ccmp_encap` made, however often and with
whatever changes of the unprotected fields of its header it arrives. -/
theorem ccmpDecap_ccmpFrame (k : Key CcmpCtx) (headroom tailroom : ℕ) (tsc : BitVec 64)
    (keyid : Byte) (hsw : k.swcrypt) (hd : hdrsize hdr = hdr.length)
    (h : SameProtected hdr hdr') (hd' : hdr'.length = hdr.length)
    (htfm : k.wkPrivate.ccTfm = tfm) :
    ccmpDecap k ⟨headroom, hdr' ++ (ccmpFrame tfm hdr tsc keyid body).drop hdr.length, tailroom⟩ =
      if packetNumber tsc ≤ k.wkKeyrsc then (k, none)
      else ({ k with wkKeyrsc := packetNumber tsc },
        some ⟨headroom + ccmpHeader, hdr' ++ body, tailroom + ccmpTrailer⟩) := by
  have hsize : hdrsize hdr' = hdr'.length := (h.hdrsize_eq.trans hd).trans hd'.symm
  have hiv : (ccmpIv tsc keyid).length = ccmpHeader := rfl
  set iv := ccmpIv tsc keyid with hivdef
  set sealed := ccmpText tfm hdr tsc body ++ ccmpTag tfm hdr tsc body with hsealed
  have hframe : hdr' ++ (ccmpFrame tfm hdr tsc keyid body).drop hdr.length =
      hdr' ++ iv ++ sealed := by
    rw [ccmpFrame, List.append_assoc, List.drop_left, List.append_assoc]
  have hdec : ccmpDecrypt k (packetNumber tsc) ⟨headroom, hdr' ++ iv ++ sealed, tailroom⟩
      hdr'.length = some ⟨headroom, hdr' ++ iv ++ body ++
        (ccmpMac tfm hdr (packetNumber tsc) body).take ccmpTrailer, tailroom⟩ := by
    rw [hsealed, ← ccmpText_packetNumber, ← ccmpTag_packetNumber]
    exact ccmpDecrypt_of_sealed k hd h hd' hiv htfm
  have hext : (iv ++ sealed).getD 3 0 &&& wepExtiv ≠ 0 := extiv_ccmpIv tsc keyid sealed
  have hpn : ccmpPn (iv ++ sealed) = packetNumber tsc := ccmpPn_ccmpIv tsc keyid sealed
  rw [hframe, ccmpDecap]
  simp only [List.append_assoc hdr', hdrsize_append (Nat.le_of_eq hsize), hsize, List.drop_left,
    if_neg hext, hpn, hsw, if_true]
  have hstrip := SkBuff.strip_append headroom tailroom hdr' iv body
    ((ccmpMac tfm hdr (packetNumber tsc) body).take ccmpTrailer)
  rw [hiv, length_ccmpMac] at hstrip
  rw [← List.append_assoc hdr', hdec]
  simp only [hstrip]

/-- A frame that was encapsulated is decapsulated to the header as it arrived and the body as
it was sent, and its packet number becomes the last one, if it is above the last one; else
nothing changes and nothing is handed on. -/
theorem ccmpDecap_ccmpEncap (hdr body : List Byte) (k k' : Key CcmpCtx) (headroom tailroom : ℕ)
    (keyid : Byte) (hsw : k.swcrypt) (hsw' : k'.swcrypt)
    (hkey : k'.wkPrivate.ccTfm = k.wkPrivate.ccTfm) (hd : hdrsize hdr = hdr.length)
    (hpad : hdrspace hdr k.wkPrivate.datapad = hdr.length) (hhead : ccmpHeader ≤ headroom)
    (hroom : ccmpTrailer ≤ tailroom) :
    ∃ skb, ccmpEncap k ⟨headroom, hdr ++ body, tailroom⟩ keyid =
        some ({ k with wkKeytsc := k.wkKeytsc + 1 }, some skb) ∧
      skb.data.take hdr.length = hdr ∧
      ∀ (hdr' : List Byte) (headroom' tailroom' : ℕ), SameProtected hdr hdr' →
        hdr'.length = hdr.length →
        ccmpDecap k' ⟨headroom', hdr' ++ skb.data.drop hdr.length, tailroom'⟩ =
          if packetNumber (k.wkKeytsc + 1) ≤ k'.wkKeyrsc then (k', none)
          else ({ k' with wkKeyrsc := packetNumber (k.wkKeytsc + 1) },
            some ⟨headroom' + ccmpHeader, hdr' ++ body, tailroom' + ccmpTrailer⟩) := by
  refine ⟨_, ccmpEncap_eq k keyid hsw hd hpad hhead hroom, ?_, ?_⟩
  · rw [ccmpFrame, List.append_assoc, List.take_left]
  · intro hdr' headroom' tailroom' hsame hlen
    exact ccmpDecap_ccmpFrame k' headroom' tailroom' _ keyid hsw' hd hsame hlen hkey

end Frames

/-- The cipher that repeats its block, cut or filled up to a whole one. -/
def copyCipher : BlockCipher where
  encrypt b := (b ++ List.replicate aesBlockLen 0).take aesBlockLen
  length_encrypt b := by simp [aesBlockLen]

def padKey : Key CcmpCtx where
  swcrypt := true
  wkKeyrsc := 0
  wkKeytsc := 0
  wkPrivate := ⟨copyCipher, true⟩

theorem ccmpDecap_ccmpEncap_padKey :
    ∃ skb, ccmpEncap padKey ⟨8, (0x08 :: 0x40 :: List.replicate 22 0) ++ [1, 2, 3], 8⟩ 0 =
        some ({ padKey with wkKeytsc := 1 }, some skb) ∧
      (ccmpDecap padKey ⟨0, (0x08 :: 0x48 :: List.replicate 22 0) ++ skb.data.drop 24, 0⟩).2 =
        some ⟨8, (0x08 :: 0x48 :: List.replicate 22 0) ++ [1, 2, 3], 8⟩ := by
  obtain ⟨skb, hskb, -, hdecap⟩ := ccmpDecap_ccmpEncap (0x08 :: 0x40 :: List.replicate 22 0)
    [1, 2, 3] padKey padKey 8 8 0 rfl rfl rfl rfl rfl (by decide) (by decide)
  refine ⟨skb, hskb, ?_⟩
  -- the retry bit was set on the way
  have hretry := hdecap (0x08 :: 0x48 :: List.replicate 22 0) 0 0
    ⟨rfl, rfl, rfl, rfl, rfl, rfl, fun _ => rfl, fun _ => rfl⟩ rfl
  exact congrArg Prod.snd hretry

end Wlan
end WirelessMesh
