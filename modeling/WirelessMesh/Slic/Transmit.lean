import WirelessMesh.Slic.Tones
import Mathlib.Algebra.BigOperators.Group.Finset.Basic
import Mathlib.Algebra.Order.BigOperators.Group.Finset
import Mathlib.Algebra.Ring.Int.Defs

/-!
# The transmit interrupt

For each chunk the interrupt fills the bytes of a channel from its write buffers, then from
the tone it plays, then with silence. The loop ends when no byte is left to be filled. The
tone generator of the line card makes the samples of a tone, so that the loop only counts
them.
-/

namespace WirelessMesh
namespace Slic

/-- `AS_CHUNKSIZE`, on the ARM board and elsewhere. -/
def asChunksize (arm : Bool) : ℕ := if arm then 8 * 4 else 8

inductive Source
  | buffer (i : ℕ)
  | tone (t : ToneRef)
  | idle (clear : Bool)
deriving DecidableEq

/-- A part of a chunk, with its number of samples as the loop counts it. -/
structure Segment where
  source : Source
  left : ℤ
deriving DecidableEq

def accounted (segments : List Segment) : ℤ := (segments.map fun seg => max seg.left 0).sum

/-- The value of an `int`; beyond its range the code has no meaning. -/
def cInt (x : ℤ) : Option ℤ := if -2 ^ 31 ≤ x ∧ x < 2 ^ 31 then some x else none

/-- One round of the loop: a `return`, or a part that was filled and the bytes that are left. -/
inductive Round
  | stop (chan : ToneChan)
  | fill (chan : ToneChan) (seg : Segment) (bytes : ℤ)

def Round.after : Round → ToneChan
  | .stop chan => chan
  | .fill chan _ _ => chan

def ChanBufs.sending (chan : ChanBufs) : Prop := -1 < chan.outwritebuf ∧ chan.txdisable = false

instance (chan : ChanBufs) : Decidable chan.sending := inferInstanceAs (Decidable (_ ∧ _))

def ChanBufs.nextWritebuf (chan : ChanBufs) : ChanBufs :=
  let oldbuf := chan.outwritebuf
  let out := (chan.outwritebuf + 1) % chan.numbufs
  { chan with
    writeidx := Function.update chan.writeidx oldbuf.toNat 0
    writen := Function.update chan.writen oldbuf.toNat 0
    outwritebuf := if out = chan.inwritebuf then -1 else out
    txdisable :=
      if out = chan.inwritebuf ∧ chan.txbufpolicy = .whenFull then true else chan.txdisable
    inwritebuf := if chan.inwritebuf < 0 then oldbuf else chan.inwritebuf }

def ChanBufs.writeLeft (chan : ChanBufs) (bytes : ℤ) : ℤ :=
  min (chan.writen chan.outwritebuf.toNat - chan.writeidx chan.outwritebuf.toNat) bytes

def ChanBufs.writeRound (chan : ChanBufs) (bytes : ℤ) : ChanBufs :=
  let out := chan.outwritebuf.toNat
  let idx := chan.writeidx out + chan.writeLeft bytes
  if chan.writen out ≤ idx then chan.nextWritebuf
  else { chan with writeidx := Function.update chan.writeidx out idx }

/-- The end of a tone. The last tone of a digit leads to the next digit. -/
def nextTone (chan : ToneChan) (tone : Tone) : ToneChan :=
  let chan := { chan with tonep := 0, curtone := tone.next }
  if chan.curtone = none ∧ chan.dialing then dspPlayDtmf chan else chan

def toneRound (chan : ToneChan) (t : ToneRef) (tone : Tone) (bytes : ℤ) : Option Round := do
  let left ← cInt (tone.tonesamples - chan.tonep)
  let left := min left bytes
  let tonep ← cInt (chan.tonep + left)
  let rest ← cInt (bytes - left)
  let chan := { chan with tonep }
  let chan := if tone.tonesamples ≤ tonep then nextTone chan tone else chan
  return .fill chan ⟨.tone t, left⟩ rest

/-- The body of the loop of `__as_io_channel_out_getbuf_chunk`. A pointer that leads nowhere
has no tone. -/
def getbufRound (arm : Bool) (tones : ToneRef → Option Tone) (chan : ToneChan) (bytes : ℤ) :
    Option Round :=
  if chan.sending then
    let left := chan.writeLeft bytes
    some (.fill { chan with toChanBufs := chan.writeRound bytes }
      ⟨.buffer chan.outwritebuf.toNat, left⟩ (bytes - left))
  else
    match chan.curtone with
    | some t =>
        if chan.ringOn then some (.stop chan)
        else if chan.dialing ∧ 0 < chan.firstDialingTimer then
          some (.stop { chan with
            firstDialingTimer := chan.firstDialingTimer - asChunksize arm })
        else
          let chan := if chan.dialing then { chan with firstDialingTimer := 0 } else chan
          (tones t).bind fun tone => toneRound chan t tone bytes
    | none => some (.fill chan ⟨.idle chan.clear, bytes⟩ 0)

/-- The loop. `none` is a loop that has not come to its end, or that ran into something
undefined. -/
def getbufLoop (arm : Bool) (tones : ToneRef → Option Tone) :
    ℕ → ToneChan → ℤ → Option (ToneChan × List Segment)
  | 0, chan, bytes => if bytes = 0 then some (chan, []) else none
  | fuel + 1, chan, bytes =>
      if bytes = 0 then some (chan, [])
      else
        (getbufRound arm tones chan bytes).bind fun round =>
          match round with
          | .stop chan => some (chan, [])
          | .fill chan seg bytes =>
              (getbufLoop arm tones fuel chan bytes).map fun r => (r.1, seg :: r.2)

/-- `__as_io_channel_out_getbuf_chunk`, within a number of rounds. -/
def channelOutGetbufChunk (arm : Bool) (tones : ToneRef → Option Tone) (rounds : ℕ)
    (chan : ToneChan) : Option (ToneChan × List Segment) :=
  getbufLoop arm tones rounds chan (asChunksize arm)

/-- What tone pointers lead to while the zone at `slab` is installed. -/
def toneAt (slab : ℕ) (zone : ZoneTones) : ToneRef → Option Tone
  | .dtmf _ => some ⟨dtmfLength, some .silence⟩
  | .silence => some ⟨dtmfLength, none⟩
  | .pause => some ⟨pauseLength, none⟩
  | .zone s i =>
      if s = slab then
        zone.samples[i]?.map fun t => ⟨t.tonesamples, some (.zone slab t.next)⟩
      else none

/-! ## Tones of a zone -/

namespace ZoneTones

def length (zone : ZoneTones) (i : ℕ) : ℤ := (zone.samples[i]?.map ZoneTone.tonesamples).getD 0

def following (zone : ZoneTones) (i : ℕ) : ℕ := (zone.samples[i]?.map ZoneTone.next).getD 0

/-- The sample counts from a tone on are not negative until they add up to `bytes`. -/
def Fills (zone : ZoneTones) (bytes : ℤ) (i : ℕ) : Prop :=
  ∃ k, (∀ j < k, 0 ≤ zone.length (zone.following^[j] i)) ∧
    bytes ≤ ∑ j ∈ Finset.range k, zone.length (zone.following^[j] i)

variable {zone : ZoneTones} {bytes : ℤ} {i : ℕ}

theorem Fills.mono {bytes' : ℤ} (h : zone.Fills bytes i) (hle : bytes' ≤ bytes) :
    zone.Fills bytes' i := by
  obtain ⟨k, hpos, hsum⟩ := h
  exact ⟨k, hpos, hle.trans hsum⟩

theorem fills_zero (zone : ZoneTones) (i : ℕ) : zone.Fills 0 i :=
  ⟨0, by simp, by simp⟩

theorem fills_of_le (hnonneg : 0 ≤ zone.length i) (hle : bytes ≤ zone.length i) :
    zone.Fills bytes i := by
  refine ⟨1, ?_, ?_⟩
  · intro j hj
    obtain rfl : j = 0 := by omega
    exact hnonneg
  · simpa using hle

theorem fills_of_following (hnonneg : 0 ≤ zone.length i)
    (h : zone.Fills (bytes - zone.length i) (zone.following i)) : zone.Fills bytes i := by
  obtain ⟨k, hpos, hsum⟩ := h
  refine ⟨k + 1, ?_, ?_⟩
  · intro j hj
    cases j with
    | zero => exact hnonneg
    | succ j => exact hpos j (Nat.lt_of_succ_lt_succ hj)
  · rw [Finset.sum_range_succ']
    simp only [Function.iterate_succ_apply, Function.iterate_zero_apply]
    omega

/-- Along the tones that fill some bytes: the last one has enough samples, the others leave
less to be filled. -/
theorem Fills.induction {P : ℤ → ℕ → Prop} (hzero : ∀ i, P 0 i)
    (hlast : ∀ bytes i, 0 < bytes → bytes < zone.length i → P bytes i)
    (hmore : ∀ bytes i, 0 < bytes → 0 ≤ zone.length i → zone.length i ≤ bytes →
      P (bytes - zone.length i) (zone.following i) → P bytes i)
    (h : zone.Fills bytes i) (hbytes : 0 ≤ bytes) : P bytes i := by
  obtain ⟨k, hpos, hsum⟩ := h
  induction k generalizing bytes i with
  | zero =>
      rw [Finset.sum_range_zero] at hsum
      obtain rfl : bytes = 0 := by omega
      exact hzero i
  | succ k ih =>
      rw [Finset.sum_range_succ'] at hsum
      simp only [Function.iterate_succ_apply, Function.iterate_zero_apply] at hsum
      rcases hbytes.eq_or_lt with rfl | hbytes
      · exact hzero i
      by_cases hlt : bytes < zone.length i
      · exact hlast bytes i hbytes hlt
      · apply hmore bytes i hbytes (hpos 0 k.succ_pos) (not_lt.mp hlt)
        apply ih (by omega)
        · intro j hj
          exact hpos (j + 1) (Nat.succ_lt_succ hj)
        · omega

theorem toneAt_zone (slab : ℕ) (h : zone.WellFormed) (hi : i < zone.samples.length) :
    toneAt slab zone (.zone slab i) =
        some ⟨zone.length i, some (.zone slab (zone.following i))⟩ ∧
      zone.following i < zone.samples.length ∧
      -2 ^ 31 ≤ zone.length i ∧ zone.length i < 2 ^ 31 := by
  have hget : zone.samples[i]? = some zone.samples[i] := List.getElem?_eq_getElem hi
  have hmem : zone.samples[i] ∈ zone.samples := List.getElem_mem hi
  simp only [toneAt, length, following, hget, if_true, Option.map_some, Option.getD_some, true_and]
  exact ⟨h.next_lt _ hmem, h.samples_int _ hmem⟩

end ZoneTones

/-! ## Playing a tone -/

/-- A channel at the start of a tone of the zone, with no write buffer to send. -/
structure Playing (slab i : ℕ) (chan : ToneChan) : Prop where
  idle : ¬chan.sending
  curtone : chan.curtone = some (.zone slab i)
  tonep : chan.tonep = 0
  dialing : chan.dialing = false
  ringOn : chan.ringOn = false

section Playing

variable {arm : Bool} {zone : ZoneTones} {slab i : ℕ} {chan : ToneChan} {bytes : ℤ}

theorem cInt_of_bounds {x : ℤ} (hlow : -2 ^ 31 ≤ x) (hhigh : x < 2 ^ 31) : cInt x = some x :=
  if_pos ⟨hlow, hhigh⟩

theorem eq_of_cInt {x y : ℤ} (h : cInt x = some y) : x = y := by
  unfold cInt at h
  split_ifs at h
  exact Option.some.inj h

theorem Playing.round_eq (h : Playing slab i chan) (hzone : zone.WellFormed)
    (hi : i < zone.samples.length) :
    getbufRound arm (toneAt slab zone) chan bytes =
      toneRound chan (.zone slab i) ⟨zone.length i, some (.zone slab (zone.following i))⟩
        bytes := by
  have htone := (ZoneTones.toneAt_zone slab hzone hi).1
  simp [getbufRound, h.idle, h.curtone, h.dialing, h.ringOn, htone]

theorem Playing.round_short (h : Playing slab i chan) (arm : Bool) (hzone : zone.WellFormed)
    (hi : i < zone.samples.length) (hle : zone.length i ≤ bytes) :
    getbufRound arm (toneAt slab zone) chan bytes =
      (cInt (bytes - zone.length i)).map fun rest =>
        .fill { chan with curtone := some (.zone slab (zone.following i)) }
          ⟨.tone (.zone slab i), zone.length i⟩ rest := by
  obtain ⟨-, -, hlow, hhigh⟩ := ZoneTones.toneAt_zone slab hzone hi
  rw [h.round_eq hzone hi]
  cases hrest : cInt (bytes - zone.length i) with
  | none =>
      simp [toneRound, h.tonep, cInt_of_bounds hlow hhigh, min_eq_left hle, hrest]
  | some rest =>
      have htonep := h.tonep
      obtain ⟨bufs, curtone, tonep, txdialbuf, dialing, timer, ringOn, clear⟩ := chan
      obtain rfl : tonep = 0 := htonep
      simp [toneRound, cInt_of_bounds hlow hhigh, min_eq_left hle, hrest, nextTone]

theorem Playing.round_long (h : Playing slab i chan) (hzone : zone.WellFormed)
    (hi : i < zone.samples.length) (hbytes : 0 < bytes) (hlt : bytes < zone.length i) :
    getbufRound arm (toneAt slab zone) chan bytes =
      some (.fill { chan with tonep := bytes } ⟨.tone (.zone slab i), bytes⟩ 0) := by
  obtain ⟨-, -, hlow, hhigh⟩ := ZoneTones.toneAt_zone slab hzone hi
  have hint : cInt bytes = some bytes := cInt_of_bounds (by omega) (by omega)
  have hzero : cInt 0 = some 0 := by decide
  rw [h.round_eq hzone hi]
  simp [toneRound, h.tonep, cInt_of_bounds hlow hhigh, min_eq_right hlt.le, hint, hzero, hlt]

theorem Playing.next (h : Playing slab i chan) (j : ℕ) :
    Playing slab j { chan with curtone := some (.zone slab j) } :=
  ⟨h.idle, rfl, h.tonep, h.dialing, h.ringOn⟩

@[simp] theorem accounted_nil : accounted [] = 0 := rfl

@[simp] theorem accounted_cons (seg : Segment) (segs : List Segment) :
    accounted (seg :: segs) = max seg.left 0 + accounted segs := by
  simp [accounted]

theorem accounted_nonneg (segs : List Segment) : 0 ≤ accounted segs := by
  induction segs with
  | nil => exact le_rfl
  | cons seg segs ih =>
      rw [accounted_cons]
      exact add_nonneg (le_max_right _ _) ih

theorem accounted_append (segs segs' : List Segment) :
    accounted (segs ++ segs') = accounted segs + accounted segs' := by
  simp [accounted]

theorem getbufLoop_zero_bytes (tones : ToneRef → Option Tone) (rounds : ℕ) (chan : ToneChan) :
    getbufLoop arm tones rounds chan 0 = some (chan, []) := by
  cases rounds <;> simp [getbufLoop]

theorem getbufLoop_fill {tones : ToneRef → Option Tone} {rounds : ℕ} {chan' : ToneChan}
    {seg : Segment} {rest : ℤ} (hbytes : bytes ≠ 0)
    (h : getbufRound arm tones chan bytes = some (.fill chan' seg rest)) :
    getbufLoop arm tones (rounds + 1) chan bytes =
      (getbufLoop arm tones rounds chan' rest).map fun r => (r.1, seg :: r.2) := by
  simp [getbufLoop, hbytes, h]

/-- A loop that ends has accounted for all bytes, and for no more only if the tones fill
them. -/
theorem Playing.fills_of_loop {rounds : ℕ} {chan' : ToneChan} {segs : List Segment}
    (h : Playing slab i chan) (hzone : zone.WellFormed) (hi : i < zone.samples.length)
    (hbytes : 0 ≤ bytes)
    (hloop : getbufLoop arm (toneAt slab zone) rounds chan bytes = some (chan', segs)) :
    bytes ≤ accounted segs ∧ (accounted segs ≤ bytes → zone.Fills bytes i) := by
  induction rounds generalizing chan chan' i bytes segs with
  | zero =>
      unfold getbufLoop at hloop
      split_ifs at hloop with hzero
      obtain ⟨-, rfl⟩ := Prod.mk.inj (Option.some.inj hloop)
      subst hzero
      exact ⟨le_rfl, fun _ => zone.fills_zero i⟩
  | succ rounds ih =>
      rcases hbytes.eq_or_lt with rfl | hpos
      · rw [getbufLoop_zero_bytes] at hloop
        obtain ⟨-, rfl⟩ := Prod.mk.inj (Option.some.inj hloop)
        exact ⟨le_rfl, fun _ => zone.fills_zero i⟩
      by_cases hle : zone.length i ≤ bytes
      · obtain ⟨-, hnext, -, -⟩ := ZoneTones.toneAt_zone slab hzone hi
        have hround := h.round_short arm hzone hi hle
        cases hrest : cInt (bytes - zone.length i) with
        | none =>
            rw [hrest] at hround
            simp [getbufLoop, hpos.ne', hround] at hloop
        | some rest =>
            obtain rfl : bytes - zone.length i = rest := eq_of_cInt hrest
            rw [hrest] at hround
            rw [getbufLoop_fill hpos.ne' hround] at hloop
            obtain ⟨⟨chan'', segs'⟩, hloop', heq⟩ := Option.map_eq_some_iff.mp hloop
            obtain ⟨-, rfl⟩ := Prod.mk.inj heq
            obtain ⟨hall, hfills⟩ := ih (h.next _) hnext (by omega) hloop'
            rw [accounted_cons]
            dsimp only
            constructor
            · have hmax := le_max_left (zone.length i) 0
              omega
            · intro hacc
              -- a negative count would have to be made up for by later samples
              have hnonneg : 0 ≤ zone.length i := by
                by_contra hneg
                rw [max_eq_right (by omega)] at hacc
                omega
              rw [max_eq_left hnonneg] at hacc
              exact ZoneTones.fills_of_following hnonneg (hfills (by omega))
      · have hlt := not_le.mp hle
        rw [getbufLoop_fill hpos.ne' (h.round_long hzone hi hpos hlt), getbufLoop_zero_bytes]
          at hloop
        obtain ⟨-, rfl⟩ := Prod.mk.inj (Option.some.inj hloop)
        refine ⟨by simp, fun _ => ZoneTones.fills_of_le (by omega) hlt.le⟩

theorem Playing.loop_of_fills (h : Playing slab i chan) (arm : Bool) (hzone : zone.WellFormed)
    (hi : i < zone.samples.length) (hbytes : 0 ≤ bytes) (hint : bytes < 2 ^ 31)
    (hfills : zone.Fills bytes i) :
    ∃ rounds chan' segs,
      getbufLoop arm (toneAt slab zone) rounds chan bytes = some (chan', segs) ∧
        accounted segs = bytes := by
  revert chan
  refine hfills.induction (P := fun bytes i => i < zone.samples.length → bytes < 2 ^ 31 →
    ∀ {chan}, Playing slab i chan → ∃ rounds chan' segs,
      getbufLoop arm (toneAt slab zone) rounds chan bytes = some (chan', segs) ∧
        accounted segs = bytes) ?_ ?_ ?_ hbytes hi hint
  · intro i _ _ chan _
    exact ⟨0, chan, [], getbufLoop_zero_bytes _ _ _, rfl⟩
  · intro bytes i hpos hlt hi _ chan h
    refine ⟨1, { chan with tonep := bytes }, [⟨.tone (.zone slab i), bytes⟩], ?_, ?_⟩
    · rw [getbufLoop_fill hpos.ne' (h.round_long hzone hi hpos hlt), getbufLoop_zero_bytes]
      rfl
    · simp [hpos.le]
  · intro bytes i hpos hnonneg hle ih hi hint chan h
    obtain ⟨-, hnext, -, -⟩ := ZoneTones.toneAt_zone slab hzone hi
    obtain ⟨rounds, chan', segs, hloop, hacc⟩ := ih hnext (by omega) (h.next _)
    refine ⟨rounds + 1, chan', ⟨.tone (.zone slab i), zone.length i⟩ :: segs, ?_, ?_⟩
    · have hround := h.round_short arm hzone hi hle
      rw [cInt_of_bounds (by omega) (by omega)] at hround
      rw [getbufLoop_fill hpos.ne' hround, hloop]
      rfl
    · rw [accounted_cons, hacc]
      simp [hnonneg]

theorem Playing.loop_stuck (h : Playing slab i chan) (hzone : zone.WellFormed)
    (hi : i < zone.samples.length) (hlength : zone.length i = 0) (hself : zone.following i = i)
    (hpos : 0 < bytes) (rounds : ℕ) :
    getbufLoop arm (toneAt slab zone) rounds chan bytes = none := by
  have hround := h.round_short arm hzone hi (hlength ▸ hpos.le)
  rw [hlength, hself, Int.sub_zero, ← h.curtone] at hround
  induction rounds with
  | zero => simp [getbufLoop, hpos.ne']
  | succ rounds ih =>
      cases hint : cInt bytes with
      | none =>
          rw [hint] at hround
          simp [getbufLoop, hpos.ne', hround]
      | some rest =>
          obtain rfl := eq_of_cInt hint
          rw [hint] at hround
          rw [getbufLoop_fill hpos.ne' hround, ih]
          rfl

end Playing

/-! ## Sending the write buffers -/

structure ChanBufs.WriteRing (chan : ChanBufs) : Prop where
  two_le : 2 ≤ chan.numbufs
  in_low : -1 ≤ chan.inwritebuf
  in_lt : chan.inwritebuf < chan.numbufs
  out_low : -1 ≤ chan.outwritebuf
  out_lt : chan.outwritebuf < chan.numbufs
  filled : ∀ x < chan.numbufs, 0 ≤ chan.writeidx x ∧ chan.writeidx x ≤ chan.writen x

/-- The number of write buffers up to the one that is being filled. -/
def ChanBufs.queued (chan : ChanBufs) : ℕ :=
  if chan.outwritebuf < 0 then 0
  else if chan.inwritebuf < 0 then chan.numbufs
  else if chan.outwritebuf < chan.inwritebuf then (chan.inwritebuf - chan.outwritebuf).toNat
  else (chan.numbufs - chan.outwritebuf + chan.inwritebuf).toNat

namespace ChanBufs

variable {chan : ChanBufs} {bytes : ℤ}

theorem next_mod {i : ℤ} {n : ℕ} (hlow : 0 ≤ i) (hlt : i < n) :
    (i + 1) % n = if i + 1 = n then 0 else i + 1 := by
  split_ifs with heq
  · rw [heq, Int.emod_self]
  · exact Int.emod_eq_of_lt (by omega) (by omega)

theorem WriteRing.queued_pos (h : chan.WriteRing) (hout : -1 < chan.outwritebuf) :
    0 < chan.queued := by
  have hin := h.in_lt
  have hlt := h.out_lt
  unfold queued
  rw [if_neg (by omega)]
  split_ifs <;> omega

theorem WriteRing.queued_next (h : chan.WriteRing) (hout : -1 < chan.outwritebuf) :
    chan.nextWritebuf.queued < chan.queued := by
  have hpos := h.queued_pos hout
  have htwo := h.two_le
  have hin := h.in_lt
  have hlt := h.out_lt
  have hmod := next_mod (by omega) hlt
  by_cases hlast : (chan.outwritebuf + 1) % chan.numbufs = chan.inwritebuf
  · have hempty : chan.nextWritebuf.outwritebuf = -1 := if_pos hlast
    simpa [queued, hempty] using hpos
  have hnext : chan.nextWritebuf.outwritebuf = (chan.outwritebuf + 1) % chan.numbufs :=
    if_neg hlast
  have hnum : chan.nextWritebuf.numbufs = chan.numbufs := rfl
  rw [hmod] at hlast hnext
  by_cases hneg : chan.inwritebuf < 0
  · have hin' : chan.nextWritebuf.inwritebuf = chan.outwritebuf := if_pos hneg
    have hall : chan.queued = chan.numbufs := by
      rw [queued, if_neg (by omega), if_pos hneg]
    rw [hall, queued, hnext, hin', hnum]
    split_ifs <;> omega
  · have hin' : chan.nextWritebuf.inwritebuf = chan.inwritebuf := if_neg hneg
    unfold queued at hpos ⊢
    rw [hnext, hin', hnum]
    rw [if_neg (by omega), if_neg hneg] at hpos ⊢
    by_cases hwrap : chan.outwritebuf + 1 = chan.numbufs
    · rw [if_pos hwrap] at hlast ⊢
      split_ifs <;> omega
    · rw [if_neg hwrap] at hlast ⊢
      split_ifs <;> omega

theorem WriteRing.next (h : chan.WriteRing) (hout : -1 < chan.outwritebuf) :
    chan.nextWritebuf.WriteRing ∧ chan.nextWritebuf.queued < chan.queued := by
  have htwo := h.two_le
  have hinlow := h.in_low
  have hin := h.in_lt
  have hlt := h.out_lt
  have hmod := next_mod (by omega) hlt
  refine ⟨⟨h.two_le, ?_, ?_, ?_, ?_, ?_⟩, h.queued_next hout⟩
  · unfold nextWritebuf
    dsimp only
    split_ifs <;> omega
  · unfold nextWritebuf
    dsimp only
    split_ifs <;> omega
  · unfold nextWritebuf
    dsimp only
    rw [hmod]
    split_ifs <;> omega
  · unfold nextWritebuf
    dsimp only
    rw [hmod]
    split_ifs <;> omega
  · intro x hx
    by_cases hsame : x = chan.outwritebuf.toNat
    · simp [nextWritebuf, hsame]
    · simpa [nextWritebuf, Function.update_of_ne hsame] using h.filled x hx

theorem WriteRing.writeLeft (h : chan.WriteRing) (hout : -1 < chan.outwritebuf)
    (hbytes : 0 ≤ bytes) : 0 ≤ chan.writeLeft bytes ∧ chan.writeLeft bytes ≤ bytes := by
  have hlt := h.out_lt
  obtain ⟨-, hle⟩ := h.filled chan.outwritebuf.toNat (by omega)
  exact ⟨le_min (by omega) hbytes, min_le_right _ _⟩

/-- After one round nothing is left to be filled, or a write buffer less is there. -/
theorem WriteRing.round (h : chan.WriteRing) (hout : -1 < chan.outwritebuf)
    (hrest : bytes - chan.writeLeft bytes ≠ 0) :
    (chan.writeRound bytes).WriteRing ∧ (chan.writeRound bytes).queued < chan.queued := by
  have hnext := h.next hout
  have hleft : chan.writeLeft bytes =
      chan.writen chan.outwritebuf.toNat - chan.writeidx chan.outwritebuf.toNat := by
    unfold ChanBufs.writeLeft at hrest ⊢
    omega
  have hend : chan.writen chan.outwritebuf.toNat ≤
      chan.writeidx chan.outwritebuf.toNat + chan.writeLeft bytes := by
    omega
  unfold writeRound
  rw [if_pos hend]
  exact hnext

end ChanBufs

/-- The write buffers are sent first. What they leave is filled with the transmitter as it
was in everything else. -/
theorem loop_sending (arm : Bool) (tones : ToneRef → Option Tone) {chan : ToneChan} {bytes : ℤ}
    (h : chan.toChanBufs.WriteRing) (hbytes : 0 ≤ bytes) :
    ∃ (n : ℕ) (bufs : ChanBufs) (rest : ℤ) (segs : List Segment),
      0 ≤ rest ∧ accounted segs = bytes - rest ∧ (rest ≠ 0 → ¬bufs.sending) ∧
        ∀ rounds, getbufLoop arm tones (n + rounds) chan bytes =
          (getbufLoop arm tones rounds { chan with toChanBufs := bufs } rest).map
            fun r => (r.1, segs ++ r.2) := by
  induction hq : chan.queued using Nat.strongRecOn generalizing chan bytes with
  | ind k ih =>
      by_cases hsend : bytes ≠ 0 ∧ chan.sending
      · obtain ⟨hne, hsend⟩ := hsend
        obtain ⟨hlow, hhigh⟩ := h.writeLeft hsend.1 hbytes
        have hround : getbufRound arm tones chan bytes = some (.fill
            { chan with toChanBufs := chan.writeRound bytes }
            ⟨.buffer chan.outwritebuf.toNat, chan.writeLeft bytes⟩
            (bytes - chan.writeLeft bytes)) := by
          simp [getbufRound, hsend]
        by_cases hrest : bytes - chan.writeLeft bytes = 0
        · refine ⟨1, chan.writeRound bytes, bytes - chan.writeLeft bytes,
            [⟨.buffer chan.outwritebuf.toNat, chan.writeLeft bytes⟩], by omega, ?_,
            fun hne => absurd hrest hne, ?_⟩
          · rw [accounted_cons, max_eq_left hlow, accounted_nil]
            omega
          · intro rounds
            rw [Nat.add_comm 1, getbufLoop_fill hne hround]
            rfl
        · obtain ⟨hring, hless⟩ := h.round hsend.1 hrest
          have hring' : ToneChan.toChanBufs
              { chan with toChanBufs := chan.writeRound bytes } |>.WriteRing := hring
          have hpos : 0 ≤ bytes - chan.writeLeft bytes := by omega
          obtain ⟨n, bufs, rest, segs, hnonneg, hacc, hidle, hloop⟩ :=
            ih _ (hq ▸ hless) hring' hpos rfl
          refine ⟨n + 1, bufs, rest,
            ⟨.buffer chan.outwritebuf.toNat, chan.writeLeft bytes⟩ :: segs, hnonneg, ?_, hidle, ?_⟩
          · rw [accounted_cons, hacc, max_eq_left hlow]
            omega
          · intro rounds
            rw [Nat.add_right_comm, getbufLoop_fill hne hround, hloop, Option.map_map]
            rfl
      · refine ⟨0, chan.toChanBufs, bytes, [], hbytes, by simp, ?_, ?_⟩
        · intro hne hsend'
          exact hsend ⟨hne, hsend'⟩
        · intro rounds
          simp

/-! ## One interrupt -/

variable {arm : Bool} {zone : ZoneTones} {slab i : ℕ}

theorem dspPlayTone_started {id : Fin 16} (chan : ToneChan) (h : zone.tones id = some i) :
    (dspPlayTone slab zone chan id).2 =
      { chan with
        tonep := 0, curtone := some (.zone slab i), txdialbuf := [], dialing := false } := by
  have hid : ((id : ℕ) : ℤ) < 16 := by exact_mod_cast id.isLt
  have hget : zone.getTone (id : ℕ) = some i := by
    unfold ZoneTones.getTone asMaxCadence asToneStop
    rw [if_neg (by omega), Int.toNat_natCast, h]
  unfold dspPlayTone asToneMax
  dsimp only
  rw [if_neg (by omega), if_neg (by omega), hget]

theorem chunk_bounds (arm : Bool) : 0 < (asChunksize arm : ℤ) ∧ (asChunksize arm : ℤ) < 2 ^ 31 := by
  cases arm <;> decide

/-- The write buffers of a channel at the start of a tone are sent, and the tones fill what
is left of the chunk. -/
theorem chunk_of_fills {chan : ToneChan} (hzone : zone.WellFormed) (hi : i < zone.samples.length)
    (hring : chan.toChanBufs.WriteRing) (hcurtone : chan.curtone = some (.zone slab i))
    (htonep : chan.tonep = 0) (hdialing : chan.dialing = false)
    (hfills : zone.Fills (asChunksize arm) i) :
    ∃ rounds chan' segs,
      channelOutGetbufChunk arm (toneAt slab zone) rounds chan = some (chan', segs) ∧
        accounted segs ≤ asChunksize arm := by
  obtain ⟨hpos, hint⟩ := chunk_bounds arm
  obtain ⟨n, bufs, rest, segs, hnonneg, hacc, hidle, hloop⟩ :=
    loop_sending arm (toneAt slab zone) hring hpos.le
  by_cases hrest : rest = 0
  · subst hrest
    refine ⟨n, { chan with toChanBufs := bufs }, segs, ?_, by omega⟩
    have hend := hloop 0
    rw [getbufLoop_zero_bytes] at hend
    simpa [channelOutGetbufChunk] using hend
  have hsending : ¬bufs.sending := hidle hrest
  by_cases hring : chan.ringOn = true
  · -- nothing is played while the telephone rings
    refine ⟨n + 1, { chan with toChanBufs := bufs }, segs, ?_, by omega⟩
    unfold channelOutGetbufChunk
    rw [hloop 1]
    simp [getbufLoop, getbufRound, hrest, hsending, hcurtone, hring]
  · have hplaying : Playing slab i { chan with toChanBufs := bufs } :=
      ⟨hsending, hcurtone, htonep, hdialing, by simpa using hring⟩
    have hle : rest ≤ asChunksize arm := by
      have hsegs := accounted_nonneg segs
      omega
    obtain ⟨rounds, chan', segs', hloop', hacc'⟩ :=
      hplaying.loop_of_fills arm hzone hi hnonneg (by omega) (hfills.mono hle)
    refine ⟨n + rounds, chan', segs ++ segs', ?_, ?_⟩
    · unfold channelOutGetbufChunk
      rw [hloop rounds, hloop']
      rfl
    · rw [accounted_append]
      omega

def quietChan : ToneChan :=
  { ChanBufs.registered 1 with
    curtone := none
    tonep := 0
    txdialbuf := []
    dialing := false
    firstDialingTimer := 0
    ringOn := false
    clear := false }

theorem writeRing_quietChan : quietChan.toChanBufs.WriteRing where
  two_le := by decide
  in_low := by decide
  in_lt := by decide
  out_low := by decide
  out_lt := by decide
  filled := by
    intro x _
    have hzero : quietChan.writeidx x = 0 ∧ quietChan.writen x = 0 := by
      constructor <;> exact ite_self _
    omega

theorem fills_of_quietChan {id : Fin 16} {rounds : ℕ} {chan' : ToneChan} {segs : List Segment}
    (hzone : zone.WellFormed) (htone : zone.tones id = some i)
    (hloop : channelOutGetbufChunk arm (toneAt slab zone) rounds
      (dspPlayTone slab zone quietChan id).2 = some (chan', segs))
    (hacc : accounted segs ≤ asChunksize arm) : zone.Fills (asChunksize arm) i := by
  rw [dspPlayTone_started quietChan htone] at hloop
  have hplaying : Playing slab i
      { quietChan with
        tonep := 0, curtone := some (.zone slab i), txdialbuf := [], dialing := false } :=
    ⟨show ¬quietChan.sending by decide, rfl, rfl, rfl, rfl⟩
  have hi := hzone.tones_lt id i htone
  exact (hplaying.fills_of_loop hzone hi (chunk_bounds arm).1.le hloop).2 hacc

/-- A tone of an accepted zone that is started on a channel: one call ends and accounts for
at most a chunk, whatever the write buffers hold, exactly when the sample counts from that
tone on are not negative until they add up to a chunk. -/
theorem getbuf_chunk_terminates_iff (arm : Bool) {memory : Bool} {count : CInt}
    {defs : ℕ → Option ToneDef} {zone : ZoneTones} (slab : ℕ) {id : Fin 16} {i : ℕ}
    (hload : ZoneTones.ioctlLoadZone memory count defs = some (.ok zone))
    (htone : zone.tones id = some i) :
    (∀ chan : ToneChan, chan.toChanBufs.WriteRing → ∃ rounds chan' segs,
      channelOutGetbufChunk arm (toneAt slab zone) rounds (dspPlayTone slab zone chan id).2 =
          some (chan', segs) ∧ accounted segs ≤ asChunksize arm) ↔
      zone.Fills (asChunksize arm) i := by
  have hzone := ZoneTones.wellFormed_of_load hload
  constructor
  · intro h
    obtain ⟨rounds, chan', segs, hloop, hacc⟩ := h quietChan writeRing_quietChan
    exact fills_of_quietChan hzone htone hloop hacc
  · intro hfills chan hring
    rw [dspPlayTone_started chan htone]
    exact chunk_of_fills hzone (hzone.tones_lt id i htone) hring rfl rfl rfl hfills

/-- The zone that the loader makes of some definitions, when there is memory. -/
def zoneOf (defs : List ToneDef) : Option (Except ℤ ZoneTones) :=
  ZoneTones.ioctlLoadZone true defs.length fun x => defs[x]?

/-- A busy tone: half a second of sound and half a second of silence. -/
theorem getbuf_chunk_terminates_busy : ∃ zone,
    zoneOf [⟨2, 1, 4000⟩, ⟨2, 0, 4000⟩] = some (.ok zone) ∧ zone.tones 2 = some 0 ∧
      ∀ chan : ToneChan, chan.toChanBufs.WriteRing → ∃ rounds chan' segs,
        channelOutGetbufChunk false (toneAt 0 zone) rounds
            (dspPlayTone 0 zone chan (2 : Fin 16)).2 =
          some (chan', segs) ∧ accounted segs ≤ asChunksize false := by
  obtain ⟨zone, hload⟩ : ∃ zone, zoneOf [⟨2, 1, 4000⟩, ⟨2, 0, 4000⟩] = some (.ok zone) := ⟨_, rfl⟩
  have hzone : zone.tones 2 = some 0 ∧ zone.length 0 = 4000 := by
    obtain rfl := Except.ok.inj (Option.some.inj hload)
    exact ⟨rfl, rfl⟩
  refine ⟨zone, hload, hzone.1, ?_⟩
  apply (getbuf_chunk_terminates_iff false 0 hload hzone.1).mpr
  exact ZoneTones.fills_of_le (by rw [hzone.2]; decide) (by rw [hzone.2]; decide)

/-- Two zones that are accepted. The tone of the first has no samples and follows itself: no
number of rounds is enough. The tone of the second has -5 samples, and the call accounts for
13. -/
theorem getbuf_chunk_not_terminating :
    (∃ zone, zoneOf [⟨0, 0, 0⟩] = some (.ok zone) ∧ zone.tones 0 = some 0 ∧
      ∀ rounds, channelOutGetbufChunk false (toneAt 0 zone) rounds
        (dspPlayTone 0 zone quietChan 0).2 = none) ∧
    ∃ zone, zoneOf [⟨0, 1, -5⟩, ⟨0, 0, 1000⟩] = some (.ok zone) ∧ zone.tones 0 = some 0 ∧
      ∃ chan' segs, channelOutGetbufChunk false (toneAt 0 zone) 2
          (dspPlayTone 0 zone quietChan 0).2 = some (chan', segs) ∧ accounted segs = 13 := by
  constructor
  · refine ⟨_, rfl, rfl, ?_⟩
    intro rounds
    have hzone := ZoneTones.wellFormed_of_load (rfl : zoneOf [⟨0, 0, 0⟩] = _)
    refine Playing.loop_stuck ⟨?_, rfl, rfl, rfl, rfl⟩ hzone (by decide) rfl rfl (by decide) rounds
    exact show ¬quietChan.sending by decide
  · exact ⟨_, rfl, rfl, _, _, rfl, by decide⟩

end Slic
end WirelessMesh
