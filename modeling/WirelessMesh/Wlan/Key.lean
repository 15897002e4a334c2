import WirelessMesh.Wlan.Frame

/-!
# Keys

`struct ieee80211_key`: the key material, whether the host has to encrypt itself, the counters of
the two directions, and the state the cipher hangs off the key.
-/

namespace WirelessMesh
namespace Wlan

/-- `struct ieee80211_key`, with the private state `σ` of its cipher. -/
structure Key (σ : Type*) where
  /-- `IEEE80211_KEY_SWCRYPT` of `wk_flags`: the host encrypts and decrypts. -/
  swcrypt : Bool
  wkKeyrsc : BitVec 64
  wkKeytsc : BitVec 64
  wkPrivate : σ

/-- `READ_6`: six bytes, the low one first. -/
def read6 (b0 b1 b2 b3 b4 b5 : Byte) : BitVec 64 :=
  let iv32 : BitVec 32 :=
    b0.setWidth 32 ||| b1.setWidth 32 <<< 8 ||| b2.setWidth 32 <<< 16 ||| b3.setWidth 32 <<< 24
  let iv16 : BitVec 16 := b4.setWidth 16 ||| b5.setWidth 16 <<< 8
  iv16.setWidth 64 <<< 32 ||| iv32.setWidth 64

/-- The six low bytes of a counter are read back as the counter modulo `2 ^ 48`. -/
theorem read6_extractLsb' (x : BitVec 64) :
    read6 (x.extractLsb' 0 8) (x.extractLsb' 8 8) (x.extractLsb' 16 8) (x.extractLsb' 24 8)
      (x.extractLsb' 32 8) (x.extractLsb' 40 8) = (x.extractLsb' 0 48).setWidth 64 := by
  ext i hi
  simp only [read6, BitVec.getElem_or, BitVec.getElem_shiftLeft, BitVec.getElem_setWidth,
    BitVec.getLsbD_setWidth, BitVec.getLsbD_or, BitVec.getLsbD_shiftLeft,
    BitVec.getLsbD_extractLsb']
  grind

/-! ## Counters on air -/

/-- `IEEE80211_WEP_EXTIV`: the key id says that a counter of six bytes is there. -/
def wepExtiv : Byte := 0x20

theorem or_extiv_and_extiv_ne (keyid : Byte) : (keyid ||| wepExtiv) &&& wepExtiv ≠ 0 := by
  intro h
  have hbit : ((keyid ||| wepExtiv) &&& wepExtiv).getLsbD 5 = false := by
    rw [h]
    rfl
  simp [wepExtiv] at hbit

def packetNumber (tsc : BitVec 64) : BitVec 64 := (tsc.extractLsb' 0 48).setWidth 64

theorem toNat_packetNumber (tsc : BitVec 64) : (packetNumber tsc).toNat = tsc.toNat % 2 ^ 48 := by
  rw [packetNumber, BitVec.toNat_setWidth, BitVec.extractLsb'_toNat, Nat.shiftRight_zero]
  omega

end Wlan
end WirelessMesh
