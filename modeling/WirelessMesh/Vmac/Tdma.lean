import WirelessMesh.Lib.SignedWords
import WirelessMesh.Lib.TimeSlots

/-!
# Sending in time slots

The MACTime module tells a MAC how long to wait before a packet can be sent in the own slot of a
frame of slots. A packet stays a guard time away from the ends of the slot; the time between the
request and the first bit on the air is the latency.
-/

namespace WirelessMesh
namespace Vmac

open SignedWords TimeSlots

/-- What `vmac_phy_t` has for this module. A function that is not set is `none`; the clock is
given to each function apart. -/
structure PhyTime (π : Type*) where
  /-- `phy_get_time` is set. -/
  phyGetTime : Bool
  phyGetDuration : Option (π → BitVec 32)
  phyGetTxlatency : Option (BitVec 32)

/-- `mactime_state_t` -/
structure MactimeState (π : Type*) where
  phyinfo : Option (PhyTime π)
  tdmaSlotlen : BitVec 32
  tdmaSlotcount : BitVec 32
  tdmaMyslot : BitVec 32
  tdmaGuardtime : BitVec 32

/-- `while (0 > slotdistance) slotdistance += mts->tdma_slotcount`. `none` is a loop that has not
come to its end. -/
def catchUp (slotcount : BitVec 32) : ℕ → BitVec 32 → Option (BitVec 32)
  | 0, _ => none
  | fuel + 1, slotdistance =>
      if slotdistance.toInt < 0 then catchUp slotcount fuel (slotdistance + slotcount)
      else some slotdistance

variable {π : Type*}

/-- `vmac_tdma_slotstatus`: the result, and what lies at `pcurslot` unless it is a null pointer.
The current slot is taken to be the number of slots. `none` is a division by zero or a loop
without end. -/
def tdmaSlotstatus (fuel : ℕ) (mts : Option (MactimeState π)) (time : BitVec 64)
    (pcurslot : Option (BitVec 32)) : Option (BitVec 32 × Option (BitVec 32)) :=
  match mts with
  | none => some (0, pcurslot)
  | some mts =>
      if mts.phyinfo.any PhyTime.phyGetTime then
        if mts.tdmaSlotlen = 0 then none
        else do
          let now : BitVec 32 := time.setWidth 32
          let slotcount := now / mts.tdmaSlotlen
          let curslot := mts.tdmaSlotcount
          let curslotstart : BitVec 64 := (slotcount * mts.tdmaSlotlen).setWidth 64
          let curslotend := curslotstart + mts.tdmaSlotlen.setWidth 64
          let slotdistance ← catchUp mts.tdmaSlotcount fuel (mts.tdmaMyslot - curslot)
          let left := curslotend - now.setWidth 64
          let pcurslot := pcurslot.map fun _ => slotcount
          if slotdistance = 0 then return ((-left).setWidth 32, pcurslot)
          else
            let slots : BitVec 64 := ((slotdistance - 1) * mts.tdmaSlotlen).setWidth 64
            return ((left + slots).setWidth 32, pcurslot)
      else some (0, pcurslot)

/-- `vmac_tdma_time2nextslot`. The start of the current slot is counted from the start of the
frame, the clock is not. -/
def tdmaTime2nextslot (fuel : ℕ) (mts : Option (MactimeState π)) (time : BitVec 64) :
    Option (BitVec 32) :=
  match mts with
  | none => some (-1)
  | some mts =>
      if mts.phyinfo.any PhyTime.phyGetTime then
        if mts.tdmaSlotlen = 0 ∨ mts.tdmaSlotcount = 0 then none
        else do
          let now : BitVec 32 := time.setWidth 32
          let slotcount := now / mts.tdmaSlotlen
          let curslot := slotcount % mts.tdmaSlotcount
          let curslotstart : BitVec 64 := (curslot * mts.tdmaSlotlen).setWidth 64
          let curslotend := curslotstart + mts.tdmaSlotlen.setWidth 64
          let slotdistance ← catchUp mts.tdmaSlotcount fuel (mts.tdmaMyslot - curslot)
          let left := curslotend - now.setWidth 64
          let slots : BitVec 64 := ((slotdistance - 1) * mts.tdmaSlotlen).setWidth 64
          return (left + slots).setWidth 32
      else some (-1)

/-- The packet can be sent at once: both comparisons are made in unsigned words. -/
def fitsNow (mts : MactimeState π) (txlat pktlen slotstat : BitVec 32) : Bool :=
  let timefromstart := mts.tdmaSlotlen + slotstat
  let timeleft := -slotstat
  decide (timefromstart ≥ mts.tdmaGuardtime - txlat) &&
    decide (timeleft ≥ pktlen + mts.tdmaGuardtime + txlat)

/-- `vmac_tdma_xmitwhen`. The clock says `time` when the slot status is computed, and `time'` when
the time to the next slot is. The function called for that, `vmac__tdma_time2nextslot`, is
declared but defined nowhere; it is taken to be `vmac_tdma_time2nextslot`. -/
def tdmaXmitwhen (fuel : ℕ) (mts : Option (MactimeState π)) (packet : π)
    (time time' : BitVec 64) : Option (BitVec 32) :=
  match mts with
  | none => some 0
  | some mts =>
      match mts.phyinfo.bind PhyTime.phyGetDuration, mts.phyinfo.bind PhyTime.phyGetTxlatency with
      | some phyGetDuration, some txlat => do
          let (slotstat, _) ← tdmaSlotstatus fuel (some mts) time none
          let pktlen := phyGetDuration packet
          let maxtxlen := mts.tdmaSlotlen - 2 * mts.tdmaGuardtime
          if pktlen.toInt > maxtxlen.toInt then return maxtxlen - pktlen
          else if slotstat.toInt < 0 then
            if fitsNow mts txlat pktlen slotstat then return 0
            else
              let next ← tdmaTime2nextslot fuel (some mts) time'
              return next + mts.tdmaGuardtime - txlat
          else return slotstat + mts.tdmaGuardtime - txlat
      | _, _ => some 0

/-! ## What is asked for -/

structure TdmaCall where
  slotlen : ℕ
  slotcount : ℕ
  myslot : ℕ
  guardtime : ℕ
  txlat : ℕ
  duration : ℕ
  now : ℕ

def MactimeState.call (mts : MactimeState π) (txlat pktlen : BitVec 32) (time : BitVec 64) :
    TdmaCall :=
  ⟨mts.tdmaSlotlen.toNat, mts.tdmaSlotcount.toNat, mts.tdmaMyslot.toNat, mts.tdmaGuardtime.toNat,
    txlat.toNat, pktlen.toNat, time.toNat⟩

namespace TdmaCall

variable (c : TdmaCall)

def slot : ℕ := c.now / c.slotlen

def sinceStart : ℕ := c.now % c.slotlen

def FitsSlot : Prop := c.duration + 2 * c.guardtime ≤ c.slotlen

/-- Sent at once, the packet would keep the guard time from the ends of the slot the clock is
in. -/
def FitsNow : Prop := c.guardtime ≤ c.sinceStart + c.txlat ∧
  c.sinceStart + c.txlat + c.duration + c.guardtime ≤ c.slotlen

instance : Decidable c.FitsSlot := inferInstanceAs (Decidable (_ ≤ _))

instance : Decidable c.FitsNow := inferInstanceAs (Decidable (_ ∧ _))

/-- The slots are set up sensibly, and the values that are computed are below `2 ^ 31`. What is
computed on one way through the function only is bounded only there. -/
structure Sensible : Prop where
  slotlen_pos : 0 < c.slotlen
  myslot_lt : c.myslot < c.slotcount
  guardtime_lt : 2 * c.guardtime < c.slotlen
  txlat_le : c.txlat ≤ c.guardtime
  slotlen_lt : c.slotlen < 2 ^ 31
  slotcount_lt : c.slotcount < 2 ^ 31
  duration_lt : c.duration < 2 ^ 31
  now_lt : c.now < 2 ^ 31
  /-- The time to the own slot, as `vmac_tdma_slotstatus` counts it, and the guard time. -/
  wait_lt : c.FitsSlot → c.myslot ≠ 0 →
    (c.slot + c.myslot) * c.slotlen + c.guardtime < 2 ^ 31 + c.now
  /-- The same for `vmac_tdma_time2nextslot`. -/
  next_lt : c.FitsSlot → c.myslot = 0 → ¬c.FitsNow → c.slot % c.slotcount ≠ 0 →
    c.slotcount * c.slotlen + c.guardtime < 2 ^ 31 + c.now

/-- After waiting for `r` the packet is sent in an own slot; where there is no such `r` it is too
long. -/
structure Answers (r : ℤ) : Prop where
  inOwnSlot : 0 ≤ r → InOwnSlot c.slotlen c.guardtime c.slotcount c.myslot
    (c.now + r.toNat + c.txlat) c.duration
  tooLong : r < 0 → ¬c.FitsSlot

/-- The packet has no length and there is no guard time, so that the start of a slot is also inside
the slot before; and the clock is in slot 1 of a frame. -/
def OnEdge : Prop := c.duration = 0 ∧ c.guardtime = 0 ∧ c.slot % c.slotcount = 1

/-- The packet is too long; or the clock is in slot 0 of a frame, from where `myslot` is
counted. When `myslot` is 0 the packet also has to fit into what is left of the slot; if it does
not, the clock is in the first frame, and in slot 0 the guard time has not passed. -/
def Timely : Prop :=
  ¬c.FitsSlot ∨
    if c.myslot ≠ 0 then c.slot % c.slotcount = 0 ∨ c.OnEdge
    else if c.FitsNow then c.slot % c.slotcount = 0 ∨ (c.sinceStart = 0 ∧ c.OnEdge)
    else if c.slot % c.slotcount = 0 then c.now + c.txlat ≤ c.guardtime
    else c.slot < c.slotcount

end TdmaCall

/-! ## In words -/

section Words

theorem truncate_add (start len now slots : BitVec 32) :
    (start.setWidth 64 + len.setWidth 64 - now.setWidth 64 + slots.setWidth 64).setWidth 32 =
      start + len - now + slots := by
  bv_omega

theorem truncate_neg (start len now : BitVec 32) :
    (-(start.setWidth 64 + len.setWidth 64 - now.setWidth 64)).setWidth 32 =
      -(start + len - now) := by
  bv_omega

theorem catchUp_sub {m cur count : BitVec 32} (hm : m.toNat < count.toNat)
    (hcur : cur.toNat ≤ count.toNat) (hcount : count.toNat < 2 ^ 31) {fuel : ℕ} (hfuel : 2 ≤ fuel) :
    catchUp count fuel (m - cur) =
      some (if m.toNat < cur.toNat then m - cur + count else m - cur) := by
  obtain ⟨fuel, rfl⟩ := Nat.exists_eq_add_of_le' hfuel
  have hsign : (m - cur).toInt = (m.toNat : ℤ) - cur.toNat := by
    apply toInt_of_eq_intCast
    · rw [Int.cast_sub, intCast_of_toNat rfl, intCast_of_toNat rfl]
    · omega
    · omega
  by_cases hlt : m.toNat < cur.toNat
  · have hback : (m - cur + count).toInt = (m.toNat : ℤ) - cur.toNat + count.toNat := by
      apply toInt_of_eq_intCast
      · rw [Int.cast_add, Int.cast_sub, intCast_of_toNat rfl, intCast_of_toNat rfl,
          intCast_of_toNat rfl]
      · omega
      · omega
    rw [catchUp, if_pos (by omega), catchUp, if_neg (by omega), if_pos hlt]
  · rw [catchUp, if_neg (by omega), if_neg hlt]

variable {mts : MactimeState π} {time : BitVec 64} {now : BitVec 32} {fuel : ℕ}

theorem tdmaSlotstatus_eq (hphy : mts.phyinfo.any PhyTime.phyGetTime = true)
    (hnow : time.setWidth 32 = now) (hlen : mts.tdmaSlotlen ≠ 0)
    (hmyslot : mts.tdmaMyslot.toNat < mts.tdmaSlotcount.toNat)
    (hcount : mts.tdmaSlotcount.toNat < 2 ^ 31) (hfuel : 2 ≤ fuel) {left : BitVec 32}
    (hleft : now / mts.tdmaSlotlen * mts.tdmaSlotlen + mts.tdmaSlotlen - now = left)
    (pcurslot : Option (BitVec 32)) :
    tdmaSlotstatus fuel (some mts) time pcurslot =
      some (if mts.tdmaMyslot = 0 then -left else left + (mts.tdmaMyslot - 1) * mts.tdmaSlotlen,
        pcurslot.map fun _ => now / mts.tdmaSlotlen) := by
  have hdistance : catchUp mts.tdmaSlotcount fuel (mts.tdmaMyslot - mts.tdmaSlotcount) =
      some mts.tdmaMyslot := by
    rw [catchUp_sub hmyslot le_rfl hcount hfuel, if_pos hmyslot, BitVec.sub_add_cancel]
  simp only [tdmaSlotstatus, if_pos hphy, if_neg hlen, hnow, hdistance, Option.bind_eq_bind,
    Option.bind_some, Option.pure_def]
  split_ifs with hzero
  · rw [truncate_neg, hleft]
  · rw [truncate_add, hleft]

/-- The time to the next slot is counted as if the clock were in the first frame. -/
theorem tdmaTime2nextslot_eq (hphy : mts.phyinfo.any PhyTime.phyGetTime = true)
    (hnow : time.setWidth 32 = now) (hlen : mts.tdmaSlotlen ≠ 0)
    (hmyslot : mts.tdmaMyslot.toNat < mts.tdmaSlotcount.toNat)
    (hcount : mts.tdmaSlotcount.toNat < 2 ^ 31) (hfuel : 2 ≤ fuel) {cur : BitVec 32}
    (hcur : now / mts.tdmaSlotlen % mts.tdmaSlotcount = cur) :
    tdmaTime2nextslot fuel (some mts) time =
      some ((if mts.tdmaMyslot.toNat < cur.toNat then mts.tdmaMyslot + mts.tdmaSlotcount
        else mts.tdmaMyslot) * mts.tdmaSlotlen - now) := by
  have hpos : 0 < mts.tdmaSlotcount.toNat := by omega
  have hcount' : mts.tdmaSlotcount ≠ 0 := by
    intro hzero
    rw [hzero] at hpos
    exact absurd hpos (by decide)
  have hle : cur.toNat ≤ mts.tdmaSlotcount.toNat := by
    rw [← hcur, BitVec.toNat_umod]
    exact (Nat.mod_lt _ hpos).le
  simp only [tdmaTime2nextslot, if_pos hphy, if_neg (not_or.mpr ⟨hlen, hcount'⟩), hnow, hcur,
    catchUp_sub hmyslot hle hcount hfuel, Option.bind_eq_bind, Option.bind_some, Option.pure_def,
    truncate_add]
  congr 1
  split_ifs
  · ring
  · ring

end Words

/-! ## As numbers -/

namespace TdmaCall

variable (c : TdmaCall)

/-- What `vmac_tdma_xmitwhen` returns, as an integer. -/
def wait : ℤ :=
  if ¬c.FitsSlot then c.slotlen - 2 * c.guardtime - c.duration
  else if c.myslot ≠ 0 then (c.slot + c.myslot) * c.slotlen - c.now + c.guardtime - c.txlat
  else if c.FitsNow then 0
  else
    (if c.slot % c.slotcount = 0 then (0 : ℤ) else c.slotcount) * c.slotlen - c.now + c.guardtime -
      c.txlat

variable {c}

theorem now_eq (c : TdmaCall) : c.now = c.slot * c.slotlen + c.sinceStart := by
  rw [slot, sinceStart, Nat.mul_comm]
  exact (Nat.div_add_mod c.now c.slotlen).symm

theorem Sensible.sinceStart_lt (h : c.Sensible) : c.sinceStart < c.slotlen :=
  Nat.mod_lt _ h.slotlen_pos

end TdmaCall

section Numbers

variable {mts : MactimeState π} {duration : π → BitVec 32} {packet : π} {time : BitVec 64}
  {txlat : BitVec 32} {c : TdmaCall}

structure Holds (c : TdmaCall) (mts : MactimeState π) (lat pktlen now : BitVec 32) : Prop where
  slotlen : mts.tdmaSlotlen.toNat = c.slotlen
  slotcount : mts.tdmaSlotcount.toNat = c.slotcount
  myslot : mts.tdmaMyslot.toNat = c.myslot
  guardtime : mts.tdmaGuardtime.toNat = c.guardtime
  txlat : lat.toNat = c.txlat
  duration : pktlen.toNat = c.duration
  clock : now.toNat = c.now

theorem holds_call {pktlen : BitVec 32} (h : (mts.call txlat pktlen time).Sensible) :
    Holds (mts.call txlat pktlen time) mts txlat pktlen (time.setWidth 32) where
  slotlen := rfl
  slotcount := rfl
  myslot := rfl
  guardtime := rfl
  txlat := rfl
  duration := rfl
  clock := by
    have hlt : time.toNat < 2 ^ 31 := h.now_lt
    rw [BitVec.toNat_setWidth]
    exact Nat.mod_eq_of_lt (lt_trans hlt (by decide))

namespace Holds

variable {lat pktlen now : BitVec 32}

theorem slot (hw : Holds c mts lat pktlen now) : (now / mts.tdmaSlotlen).toNat = c.slot := by
  rw [BitVec.toNat_udiv, hw.clock, hw.slotlen]
  rfl

theorem curslot (hw : Holds c mts lat pktlen now) :
    (now / mts.tdmaSlotlen % mts.tdmaSlotcount).toNat = c.slot % c.slotcount := by
  rw [BitVec.toNat_umod, hw.slot, hw.slotcount]

theorem slotlen_ne_zero (hw : Holds c mts lat pktlen now) (h : c.Sensible) :
    mts.tdmaSlotlen ≠ 0 := by
  intro hzero
  have hpos := h.slotlen_pos
  rw [← hw.slotlen, hzero] at hpos
  exact absurd hpos (by decide)

theorem myslot_eq_zero_iff (hw : Holds c mts lat pktlen now) :
    mts.tdmaMyslot = 0 ↔ c.myslot = 0 := by
  rw [← hw.myslot, BitVec.toNat_eq]
  rfl

theorem left (hw : Holds c mts lat pktlen now) :
    now / mts.tdmaSlotlen * mts.tdmaSlotlen + mts.tdmaSlotlen - now =
      ((c.slotlen - c.sinceStart : ℤ) : BitVec 32) := by
  have hnow : (c.now : ℤ) = c.slot * c.slotlen + c.sinceStart := by exact_mod_cast c.now_eq
  have hleft : (c.slotlen - c.sinceStart : ℤ) = c.slot * c.slotlen + c.slotlen - c.now := by
    rw [hnow]
    ring
  rw [hleft, Int.cast_sub, Int.cast_add, Int.cast_mul, intCast_of_toNat hw.slot,
    intCast_of_toNat hw.slotlen, intCast_of_toNat hw.clock]

theorem toInt_maxtxlen (hw : Holds c mts lat pktlen now) (h : c.Sensible) :
    (mts.tdmaSlotlen - 2 * mts.tdmaGuardtime).toInt = c.slotlen - 2 * c.guardtime := by
  have hlen := h.slotlen_lt
  have hguard := h.guardtime_lt
  apply toInt_of_eq_intCast
  · rw [Int.cast_sub, Int.cast_mul, intCast_of_toNat hw.slotlen, intCast_of_toNat hw.guardtime]
    rfl
  · omega
  · omega

theorem toInt_duration (hw : Holds c mts lat pktlen now) (h : c.Sensible) :
    pktlen.toInt = c.duration := by
  have hlt := h.duration_lt
  apply toInt_of_eq_intCast (intCast_of_toNat hw.duration).symm
  · omega
  · omega

theorem toInt_excess (hw : Holds c mts lat pktlen now) (h : c.Sensible) :
    (mts.tdmaSlotlen - 2 * mts.tdmaGuardtime - pktlen).toInt =
      c.slotlen - 2 * c.guardtime - c.duration := by
  have hlen := h.slotlen_lt
  have hdur := h.duration_lt
  have hguard := h.guardtime_lt
  apply toInt_of_eq_intCast
  · rw [Int.cast_sub, Int.cast_sub, Int.cast_mul, intCast_of_toNat hw.slotlen,
      intCast_of_toNat hw.guardtime, intCast_of_toNat hw.duration]
    rfl
  · omega
  · omega

/-- What `vmac_tdma_slotstatus` returns where the own slot is 0: the present slot is taken for
it. -/
theorem toInt_present (h : c.Sensible) :
    (-((c.slotlen - c.sinceStart : ℤ) : BitVec 32)).toInt = c.sinceStart - c.slotlen := by
  have hlen := h.slotlen_lt
  have hsince := h.sinceStart_lt
  apply toInt_of_eq_intCast
  · rw [← Int.cast_neg, neg_sub]
  · omega
  · omega

theorem too_long_iff (hw : Holds c mts lat pktlen now) (h : c.Sensible) :
    pktlen.toInt > (mts.tdmaSlotlen - 2 * mts.tdmaGuardtime).toInt ↔ ¬c.FitsSlot := by
  rw [hw.toInt_maxtxlen h, hw.toInt_duration h, TdmaCall.FitsSlot]
  omega

theorem fitsNow_iff (hw : Holds c mts lat pktlen now) (h : c.Sensible) (hfits : c.FitsSlot) :
    fitsNow mts lat pktlen (-((c.slotlen - c.sinceStart : ℤ) : BitVec 32)) = true ↔
      c.FitsNow := by
  have hlen := h.slotlen_lt
  have hguard := h.guardtime_lt
  have hlat := h.txlat_le
  have hsince := h.sinceStart_lt
  have hfromstart : (mts.tdmaSlotlen + -((c.slotlen - c.sinceStart : ℤ) : BitVec 32)).toNat =
      c.sinceStart := by
    apply toNat_of_eq_intCast
    · rw [← intCast_of_toNat hw.slotlen, ← Int.cast_neg, ← Int.cast_add]
      congr 1
      ring
    · omega
  have hbefore : (mts.tdmaGuardtime - lat).toNat = c.guardtime - c.txlat := by
    apply toNat_of_eq_intCast
    · rw [Nat.cast_sub hlat, Int.cast_sub, intCast_of_toNat hw.guardtime,
        intCast_of_toNat hw.txlat]
    · omega
  have hleft : (-(-((c.slotlen - c.sinceStart : ℤ) : BitVec 32))).toNat =
      c.slotlen - c.sinceStart := by
    apply toNat_of_eq_intCast
    · rw [neg_neg, Nat.cast_sub hsince.le]
    · omega
  have hneeded : (pktlen + mts.tdmaGuardtime + lat).toNat =
      c.duration + c.guardtime + c.txlat := by
    rw [TdmaCall.FitsSlot] at hfits
    apply toNat_of_eq_intCast
    · rw [Nat.cast_add, Nat.cast_add, Int.cast_add, Int.cast_add, intCast_of_toNat hw.duration,
        intCast_of_toNat hw.guardtime, intCast_of_toNat hw.txlat]
    · omega
  simp only [fitsNow, Bool.and_eq_true, decide_eq_true_eq, ge_iff_le, BitVec.le_def, hfromstart,
    hbefore, hleft, hneeded, TdmaCall.FitsNow]
  omega

theorem stat (hw : Holds c mts lat pktlen now) :
    ((c.slotlen - c.sinceStart : ℤ) : BitVec 32) + (mts.tdmaMyslot - 1) * mts.tdmaSlotlen =
      (((c.slot + c.myslot) * c.slotlen - c.now : ℤ) : BitVec 32) := by
  have hnow : (c.now : ℤ) = c.slot * c.slotlen + c.sinceStart := by exact_mod_cast c.now_eq
  have hsum : ((c.slot + c.myslot) * c.slotlen - c.now : ℤ) =
      (c.slotlen - c.sinceStart) + (c.myslot - 1) * c.slotlen := by
    rw [hnow]
    ring
  rw [hsum, Int.cast_add, Int.cast_mul, Int.cast_sub (c.myslot : ℤ), Int.cast_one,
    intCast_of_toNat hw.myslot, intCast_of_toNat hw.slotlen]

theorem toInt_guarded (hw : Holds c mts lat pktlen now) (h : c.Sensible) {wait : ℤ}
    (hle : -2 ^ 31 ≤ wait) (hlt : wait + c.guardtime < 2 ^ 31) :
    ((wait : BitVec 32) + mts.tdmaGuardtime - lat).toInt = wait + c.guardtime - c.txlat := by
  have hlat := h.txlat_le
  apply toInt_of_eq_intCast
  · rw [Int.cast_sub, Int.cast_add, intCast_of_toNat hw.guardtime, intCast_of_toNat hw.txlat]
  · omega
  · omega

theorem toInt_stat (hw : Holds c mts lat pktlen now) (h : c.Sensible) (hfits : c.FitsSlot)
    (hzero : c.myslot ≠ 0) :
    0 ≤ ((c.slot + c.myslot) * c.slotlen - c.now : ℤ) ∧
      (((c.slot + c.myslot) * c.slotlen - c.now : ℤ) : BitVec 32).toInt =
        (c.slot + c.myslot) * c.slotlen - c.now ∧
      (((c.slot + c.myslot) * c.slotlen - c.now : ℤ) + mts.tdmaGuardtime - lat).toInt =
        (c.slot + c.myslot) * c.slotlen - c.now + c.guardtime - c.txlat := by
  have hwait : ((c.slot + c.myslot) * c.slotlen + c.guardtime : ℤ) < 2 ^ 31 + c.now := by
    exact_mod_cast h.wait_lt hfits hzero
  have hnow : (c.now : ℤ) = c.slot * c.slotlen + c.sinceStart := by exact_mod_cast c.now_eq
  have hsince := h.sinceStart_lt
  have hpos : (0 : ℤ) ≤ (c.slot + c.myslot) * c.slotlen - c.now := by
    have hone : (1 : ℤ) * c.slotlen ≤ c.myslot * c.slotlen :=
      Int.mul_le_mul_of_nonneg_right (by omega) (Int.natCast_nonneg _)
    rw [hnow, add_mul]
    omega
  refine ⟨hpos, toInt_intCast ?_ ?_, hw.toInt_guarded h ?_ ?_⟩
  · omega
  · omega
  · omega
  · omega

/-- Where the own slot is slot 0 the next one is the first of the second frame, or slot 0 at time
zero. -/
theorem toInt_next (hw : Holds c mts lat pktlen now) (h : c.Sensible) (hfits : c.FitsSlot)
    (hzero : c.myslot = 0) (hnow : ¬c.FitsNow) :
    ((if mts.tdmaMyslot.toNat < (now / mts.tdmaSlotlen % mts.tdmaSlotcount).toNat then
        mts.tdmaMyslot + mts.tdmaSlotcount else mts.tdmaMyslot) * mts.tdmaSlotlen - now +
          mts.tdmaGuardtime - lat).toInt =
      (if c.slot % c.slotcount = 0 then (0 : ℤ) else c.slotcount) * c.slotlen - c.now +
        c.guardtime - c.txlat := by
  have hnowlt := h.now_lt
  have hguard := h.guardtime_lt
  have hlen := h.slotlen_lt
  have hmyslot : mts.tdmaMyslot = 0 := hw.myslot_eq_zero_iff.mpr hzero
  have hword {slots : BitVec 32} {k : ℤ} (hslots : (k : BitVec 32) = slots) :
      slots * mts.tdmaSlotlen - now = ((k * c.slotlen - c.now : ℤ) : BitVec 32) := by
    rw [Int.cast_sub, Int.cast_mul, hslots, intCast_of_toNat hw.slotlen,
      intCast_of_toNat hw.clock]
  rw [hw.curslot, hw.myslot, hzero, hmyslot]
  by_cases hcur : c.slot % c.slotcount = 0
  · rw [if_neg (by omega), if_pos hcur, hword Int.cast_zero]
    apply hw.toInt_guarded h
    · omega
    · omega
  · have hnext : (c.slotcount * c.slotlen + c.guardtime : ℤ) < 2 ^ 31 + c.now := by
      exact_mod_cast h.next_lt hfits hzero hnow hcur
    have hslots : ((c.slotcount : ℤ) : BitVec 32) = 0 + mts.tdmaSlotcount := by
      rw [intCast_of_toNat hw.slotcount, zero_add]
    have hnonneg : (0 : ℤ) ≤ c.slotcount * c.slotlen := by exact_mod_cast Nat.zero_le _
    rw [if_pos (by omega), if_neg hcur, hword hslots]
    apply hw.toInt_guarded h
    · omega
    · omega

end Holds

/-- The body of `vmac_tdma_xmitwhen`, with what the two other functions return. -/
theorem tdmaXmitwhen_eq_ite (packet : π)
    (hphy : mts.phyinfo = some ⟨true, some duration, some txlat⟩) {fuel : ℕ} {stat next : BitVec 32}
    (hstat : tdmaSlotstatus fuel (some mts) time none = some (stat, none))
    (hnext : tdmaTime2nextslot fuel (some mts) time = some next) :
    tdmaXmitwhen fuel (some mts) packet time time =
      some (if (duration packet).toInt > (mts.tdmaSlotlen - 2 * mts.tdmaGuardtime).toInt then
          mts.tdmaSlotlen - 2 * mts.tdmaGuardtime - duration packet
        else if stat.toInt < 0 then
          if fitsNow mts txlat (duration packet) stat then 0
          else next + mts.tdmaGuardtime - txlat
        else stat + mts.tdmaGuardtime - txlat) := by
  simp only [tdmaXmitwhen, hphy, Option.bind_some, hstat, hnext, Option.bind_eq_bind,
    Option.pure_def]
  split_ifs <;> rfl

theorem tdmaXmitwhen_eq (hphy : mts.phyinfo = some ⟨true, some duration, some txlat⟩)
    (h : (mts.call txlat (duration packet) time).Sensible) :
    ∃ r, (∀ fuel, 2 ≤ fuel → tdmaXmitwhen fuel (some mts) packet time time = some r) ∧
      r.toInt = (mts.call txlat (duration packet) time).wait := by
  have hw := holds_call h
  generalize mts.call txlat (duration packet) time = c at h hw ⊢
  have hany : mts.phyinfo.any PhyTime.phyGetTime = true := by
    rw [hphy]
    rfl
  have hlen := hw.slotlen_ne_zero h
  have hmyslot : mts.tdmaMyslot.toNat < mts.tdmaSlotcount.toNat := by
    rw [hw.myslot, hw.slotcount]
    exact h.myslot_lt
  have hcount : mts.tdmaSlotcount.toNat < 2 ^ 31 := by
    rw [hw.slotcount]
    exact h.slotcount_lt
  have hbody {fuel : ℕ} (hfuel : 2 ≤ fuel) := tdmaXmitwhen_eq_ite packet hphy
    (tdmaSlotstatus_eq hany rfl hlen hmyslot hcount hfuel hw.left none)
    (tdmaTime2nextslot_eq hany rfl hlen hmyslot hcount hfuel rfl)
  refine ⟨_, fun fuel hfuel => hbody hfuel, ?_⟩
  rw [TdmaCall.wait]
  by_cases hfits : c.FitsSlot
  · rw [if_neg (mt (hw.too_long_iff h).mp (not_not.mpr hfits)), if_neg (not_not.mpr hfits)]
    by_cases hzero : c.myslot = 0
    · have hsince := h.sinceStart_lt
      rw [if_pos (hw.myslot_eq_zero_iff.mpr hzero), Holds.toInt_present h, if_pos (by omega),
        if_neg (not_not.mpr hzero)]
      by_cases hnow : c.FitsNow
      · rw [if_pos ((hw.fitsNow_iff h hfits).mpr hnow), if_pos hnow]
        rfl
      · rw [if_neg (mt (hw.fitsNow_iff h hfits).mp hnow), if_neg hnow]
        exact hw.toInt_next h hfits hzero hnow
    · obtain ⟨hpos, hstat, hguarded⟩ := hw.toInt_stat h hfits hzero
      rw [if_neg (mt hw.myslot_eq_zero_iff.mp hzero), hw.stat, hstat, if_neg (not_lt.mpr hpos),
        if_pos hzero]
      exact hguarded
  · rw [if_pos ((hw.too_long_iff h).mpr hfits), if_pos hfits]
    exact hw.toInt_excess h

end Numbers

/-! ## The own slot -/

namespace TdmaCall

variable {c : TdmaCall}

theorem inOwnSlot_start_iff (h : c.Sensible) (hfits : c.FitsSlot) (a : ℕ) :
    InOwnSlot c.slotlen c.guardtime c.slotcount c.myslot (a * c.slotlen + c.guardtime)
        c.duration ↔
      a % c.slotcount = c.myslot ∨ (c.duration = 0 ∧ c.guardtime = 0 ∧
        ∃ k, k + 1 = a ∧ k % c.slotcount = c.myslot) := by
  have hguard := h.guardtime_lt
  rw [FitsSlot] at hfits
  rw [inOwnSlot_iff (by omega)]
  constructor
  · rintro (⟨ha, -⟩ | ⟨-, hd, hg, hk⟩)
    · exact .inl ha
    · exact .inr ⟨hd, hg, hk⟩
  · rintro (ha | ⟨hd, hg, hk⟩)
    · exact .inl ⟨ha, le_rfl, by omega⟩
    · exact .inr ⟨hg, hd, hg, hk⟩

theorem answers_iff_of_fits (hfits : c.FitsSlot) (r : ℤ) : c.Answers r ↔
    0 ≤ r ∧ InOwnSlot c.slotlen c.guardtime c.slotcount c.myslot (c.now + r.toNat + c.txlat)
      c.duration := by
  constructor
  · intro h
    have hr : 0 ≤ r := not_lt.mp fun hneg => h.tooLong hneg hfits
    exact ⟨hr, h.inOwnSlot hr⟩
  · rintro ⟨hr, hown⟩
    exact ⟨fun _ => hown, fun hneg => absurd hr (not_le.mpr hneg)⟩

theorem answers_ahead_iff (h : c.Sensible) (hfits : c.FitsSlot) (hzero : c.myslot ≠ 0) :
    c.Answers ((c.slot + c.myslot) * c.slotlen - c.now + c.guardtime - c.txlat) ↔
      c.slot % c.slotcount = 0 ∨ c.OnEdge := by
  have hnow := c.now_eq
  have hlat := h.txlat_le
  have hm := h.myslot_lt
  have hsince := h.sinceStart_lt
  have hone : 1 * c.slotlen ≤ c.myslot * c.slotlen := Nat.mul_le_mul_right _ (by omega)
  have hle : c.now ≤ (c.slot + c.myslot) * c.slotlen := by
    rw [Nat.add_mul]
    omega
  have hcast : ((c.slot + c.myslot) * c.slotlen - c.now + c.guardtime - c.txlat : ℤ) =
      ((((c.slot + c.myslot) * c.slotlen - c.now) + (c.guardtime - c.txlat) : ℕ) : ℤ) := by
    push_cast [Nat.cast_sub hle, Nat.cast_sub hlat]
    ring
  have hstart : c.now + (((c.slot + c.myslot) * c.slotlen - c.now) + (c.guardtime - c.txlat)) +
      c.txlat = (c.slot + c.myslot) * c.slotlen + c.guardtime := by
    omega
  have hmod : 1 % c.slotcount = 1 := Nat.mod_eq_of_lt (by omega)
  rw [answers_iff_of_fits hfits, hcast, Int.toNat_natCast, hstart, inOwnSlot_start_iff h hfits,
    add_mod_eq_iff hm, exists_pred_mod_iff hm (by omega), hmod, OnEdge]
  exact and_iff_right (Int.natCast_nonneg _)

/-- Slot 0 is the own one, and the packet fits into what is left of the present slot. -/
theorem answers_now_iff (h : c.Sensible) (hfits : c.FitsSlot) (hzero : c.myslot = 0)
    (hnow : c.FitsNow) :
    c.Answers 0 ↔ c.slot % c.slotcount = 0 ∨ (c.sinceStart = 0 ∧ c.OnEdge) := by
  have hlat := h.txlat_le
  have hm := h.myslot_lt
  have hsince := h.sinceStart_lt
  obtain ⟨hstart, hstop⟩ := hnow
  have ht : c.sinceStart + c.txlat < c.slotlen := by omega
  have htime : c.now + (0 : ℤ).toNat + c.txlat = c.slot * c.slotlen + (c.sinceStart + c.txlat) := by
    have heq := c.now_eq
    rw [Int.toNat_zero]
    omega
  rw [answers_iff_of_fits hfits, htime, inOwnSlot_iff ht, hzero]
  rw [hzero] at hm
  constructor
  · rintro ⟨-, ⟨hslot, -⟩ | ⟨hsum, hd, hg, hk⟩⟩
    · exact .inl hslot
    · obtain ⟨k, hk, hmod⟩ := hk
      have hone := (exists_pred_mod_iff hm (q := c.slot) (by omega)).mp ⟨k, hk, hmod⟩
      by_cases hcount : c.slotcount = 1
      · rw [hcount]
        exact .inl (Nat.mod_one _)
      · rw [Nat.mod_eq_of_lt (by omega : 1 < c.slotcount)] at hone
        exact .inr ⟨by omega, hd, hg, hone⟩
  · rintro (hslot | ⟨hstart', hd, hg, hone⟩)
    · exact ⟨le_rfl, .inl ⟨hslot, hstart, by omega⟩⟩
    · refine ⟨le_rfl, .inr ⟨by omega, hd, hg, ?_⟩⟩
      have hpos : 0 < c.slot := by
        rcases Nat.eq_zero_or_pos c.slot with hq | hq
        · rw [hq, Nat.zero_mod] at hone
          cases hone
        · exact hq
      have hcount : c.slot % c.slotcount < c.slotcount := Nat.mod_lt _ hm
      rw [hone] at hcount
      apply (exists_pred_mod_iff (q := c.slot) hm hpos).mpr
      rw [hone, Nat.mod_eq_of_lt hcount]

theorem answers_next_iff (h : c.Sensible) (hfits : c.FitsSlot) (hzero : c.myslot = 0) :
    c.Answers ((if c.slot % c.slotcount = 0 then (0 : ℤ) else c.slotcount) * c.slotlen - c.now +
        c.guardtime - c.txlat) ↔
      if c.slot % c.slotcount = 0 then c.now + c.txlat ≤ c.guardtime
      else c.slot < c.slotcount := by
  have hlat := h.txlat_le
  have hguard := h.guardtime_lt
  have hsince := h.sinceStart_lt
  have hnow := c.now_eq
  -- An own slot begins where the wait ends.
  have hown {a : ℕ} (ha : a % c.slotcount = 0) {r : ℤ} (hr : 0 ≤ r)
      (htime : (c.now + r + c.txlat : ℤ) = a * c.slotlen + c.guardtime) :
      InOwnSlot c.slotlen c.guardtime c.slotcount c.myslot (c.now + r.toNat + c.txlat)
        c.duration := by
    have hstart : c.now + r.toNat + c.txlat = a * c.slotlen + c.guardtime := by omega
    rw [hstart, inOwnSlot_start_iff h hfits, hzero]
    exact .inl ha
  rw [answers_iff_of_fits hfits]
  split_ifs with hcur
  · rw [zero_mul]
    constructor
    · rintro ⟨hr, -⟩
      omega
    · intro hle
      refine ⟨by omega, hown (Nat.zero_mod _) (by omega) ?_⟩
      push_cast
      ring
  · constructor
    · rintro ⟨hr, -⟩
      by_contra hge
      have hne : c.slot ≠ c.slotcount := by
        intro heq
        rw [heq] at hcur
        exact hcur (Nat.mod_self _)
      have hlater : (c.slotcount + 1) * c.slotlen ≤ c.slot * c.slotlen :=
        Nat.mul_le_mul_right _ (by omega)
      rw [Nat.succ_mul] at hlater
      omega
    · intro hlt
      have hframe : (c.slot + 1) * c.slotlen ≤ c.slotcount * c.slotlen :=
        Nat.mul_le_mul_right _ hlt
      rw [Nat.succ_mul] at hframe
      have hr : (0 : ℤ) ≤ c.slotcount * c.slotlen - c.now + c.guardtime - c.txlat := by omega
      refine ⟨hr, hown (Nat.mod_self _) hr ?_⟩
      ring

theorem answers_iff (h : c.Sensible) : c.Answers c.wait ↔ c.Timely := by
  rw [wait, Timely]
  by_cases hfits : c.FitsSlot
  · rw [if_neg (not_not.mpr hfits), or_iff_right (not_not.mpr hfits)]
    by_cases hzero : c.myslot = 0
    · rw [if_neg (not_not.mpr hzero), if_neg (not_not.mpr hzero)]
      by_cases hnow : c.FitsNow
      · rw [if_pos hnow, if_pos hnow]
        exact answers_now_iff h hfits hzero hnow
      · rw [if_neg hnow, if_neg hnow]
        exact answers_next_iff h hfits hzero
    · rw [if_pos hzero, if_pos hzero]
      exact answers_ahead_iff h hfits hzero
  · rw [if_pos hfits]
    refine iff_of_true ⟨fun hr => absurd hr ?_, fun _ => hfits⟩ (.inl hfits)
    rw [FitsSlot] at hfits
    omega

end TdmaCall

/-- `vmac_tdma_xmitwhen` returns. While the clock stands still, what it returns keeps a packet in
the own slot, and is negative only for a packet that is too long, exactly if it is asked in
time. -/
theorem tdma_in_own_slot_iff {mts : MactimeState π} {duration : π → BitVec 32} {packet : π}
    {time : BitVec 64} {txlat : BitVec 32}
    (hphy : mts.phyinfo = some ⟨true, some duration, some txlat⟩)
    (h : (mts.call txlat (duration packet) time).Sensible) :
    ∃ r, (∀ fuel, 2 ≤ fuel → tdmaXmitwhen fuel (some mts) packet time time = some r) ∧
      ((mts.call txlat (duration packet) time).Answers r.toInt ↔
        (mts.call txlat (duration packet) time).Timely) := by
  obtain ⟨r, hreturns, hwait⟩ := tdmaXmitwhen_eq hphy h
  refine ⟨r, hreturns, ?_⟩
  rw [hwait]
  exact TdmaCall.answers_iff h

/-- Three slots of ten ticks with a guard time of one, no latency, and packets of two ticks. -/
def threeSlots (myslot : BitVec 32) : MactimeState Unit :=
  ⟨some ⟨true, some fun _ => 2, some 0⟩, 10, 3, myslot, 1⟩

/-- In the first slot of a frame slot 1 is found. -/
theorem tdma_in_own_slot_first : ((threeSlots 1).call 0 2 2).Sensible ∧
    ∃ r, (∀ fuel, 2 ≤ fuel → tdmaXmitwhen fuel (some (threeSlots 1)) () 2 2 = some r) ∧
      ((threeSlots 1).call 0 2 2).Answers r.toInt := by
  have hsensible : ((threeSlots 1).call 0 2 2).Sensible := by
    constructor <;> decide
  obtain ⟨r, hreturns, hiff⟩ :=
    @tdma_in_own_slot_iff Unit (threeSlots 1) (fun _ => 2) () 2 0 rfl hsensible
  exact ⟨hsensible, r, hreturns, hiff.mpr (.inr (.inl (by decide)))⟩

/-- In slot 2 of a frame the next slot is taken for slot 1. In slot 1 a packet of slot 0 is sent
at once. And at the end of slot 3, which is slot 0 of the second frame, a packet that does not fit
any more is said to be too long. -/
theorem tdma_in_other_slot :
    (tdmaXmitwhen 2 (some (threeSlots 1)) () 25 25 = some 6 ∧
      ¬((threeSlots 1).call 0 2 25).Answers 6) ∧
    (tdmaXmitwhen 2 (some (threeSlots 0)) () 12 12 = some 0 ∧
      ¬((threeSlots 0).call 0 2 12).Answers 0) ∧
    tdmaXmitwhen 2 (some (threeSlots 0)) () 38 38 = some (-37) ∧
      ¬((threeSlots 0).call 0 2 38).Answers (-37) := by
  refine ⟨⟨by decide, ?_⟩, ⟨by decide, ?_⟩, by decide, ?_⟩
  · rintro ⟨hown, -⟩
    obtain ⟨k, hk, hstart, hstop⟩ := hown (by decide)
    change k % 3 = 1 at hk
    change k * 10 + 1 ≤ 31 at hstart
    change 34 ≤ (k + 1) * 10 at hstop
    omega
  · rintro ⟨hown, -⟩
    obtain ⟨k, hk, hstart, hstop⟩ := hown le_rfl
    change k % 3 = 0 at hk
    change k * 10 + 1 ≤ 12 at hstart
    change 15 ≤ (k + 1) * 10 at hstop
    omega
  · rintro ⟨-, hlong⟩
    exact hlong (by decide) (by decide)

end Vmac
end WirelessMesh
