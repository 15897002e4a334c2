import WirelessMesh.Lib.Phases
import WirelessMesh.Slic.Line
import Mathlib.Algebra.Ring.Parity
import Mathlib.Data.List.Count

/-!
# Ringing

A process that asks for `AS_RING` starts the first phase of the channel's ring cadence. From
then on the transmit interrupt changes between ringing and silence: at the end of each phase it
goes to the next entry of the cadence, or back to the first one. In the latter case it takes
the time of that entry from the zone and not from the channel.

The phases are compared with the timetable that the cadence stands for. The second part is
about a telephone that is answered while it rings.
-/

namespace WirelessMesh
namespace Slic

/-- A ring cadence: an even number of positive times, and zeros behind them. -/
structure RingCadence where
  entries : Fin 16 → CInt
  used : ℕ
  used_le : used ≤ 16
  even : Even used
  positive : ∀ i : Fin 16, (i : ℕ) < used → 0 < (entries i).toInt
  zero : ∀ i : Fin 16, used ≤ i → entries i = 0

namespace RingCadence

variable (cad : RingCadence)

/-- The time of the phase with number `k`. A cadence without entries has no phases. -/
def time (k : ℕ) : CInt := if h : k % cad.used < 16 then cad.entries ⟨k % cad.used, h⟩ else 0

def chunks (arm : Bool) (time : CInt) : ℕ := (8 * time.toInt).toNat ⌈/⌉ asChunksize arm

def signals (n : ℕ) : List TxSig :=
  (List.range n).map fun i => if Even i then .start else .offhook

def ringerEvents (n : ℕ) : List LineEvent :=
  (List.range n).map fun i => if Even i then .ringeroff else .ringeron

structure InPhase (chan : LineChan) (k : ℕ) (line : LineChan) : Prop where
  position : (line.cadencepos : ℕ) = k % cad.used
  ringer : line.txstate = if Even (line.cadencepos : ℕ) then .ringon else .ringoff
  sent : line.sent = chan.sent ++ signals (k + 1)
  events : line.events = chan.events ++ ringerEvents k

def Follows (arm : Bool) (zone : ZoneRing) (chan rung : LineChan) : Prop :=
  Phases.Follows (fun n => (LineChan.transmitTick arm zone)^[n] rung) (cad.InPhase chan)
    fun k => chunks arm (cad.time k)

end RingCadence

namespace LineChan

/-- A line that the request `AS_RING` is accepted for, with its cadence. -/
structure CanRing (cad : RingCadence) (chan : LineChan) : Prop where
  clear : chan.clear = false
  fxo : chan.sig.isFxo
  onhook : chan.txstate = .onhook
  cadence : chan.ringcadence = cad.entries

variable {arm : Bool} {zone : ZoneRing} {chan : LineChan} {cad : RingCadence}

theorem CanRing.ring (h : chan.CanRing cad) (delay : ℤ) :
    (chan.hookIoctl delay (some .ring)).2 =
      { chan with
        cadencepos := 0, txstate := .ringon, sent := chan.sent ++ [.start]
        otimer := cad.entries 0 * 8 } := by
  simp [hookIoctl, h.clear, h.fxo, h.onhook, h.cadence, rbsSethook]

theorem transmitTick_idle (h : chan.otimer = 0) : chan.transmitTick arm zone = chan := if_pos h

theorem transmitTick_running (hzero : chan.otimer ≠ 0)
    (hout : ¬Countdown.RunsOut (asChunksize arm) chan.otimer) :
    chan.transmitTick arm zone =
      { chan with otimer := chan.otimer - BitVec.ofNat 32 (asChunksize arm) } := by
  rw [transmitTick, if_neg hzero]
  exact if_neg hout

theorem transmitTick_expires (hzero : chan.otimer ≠ 0)
    (hout : Countdown.RunsOut (asChunksize arm) chan.otimer) :
    chan.transmitTick arm zone = chan.rbsOtimerExpire zone := by
  rw [transmitTick, if_neg hzero]
  exact if_pos hout

theorem transmitTicks_running (hzero : chan.otimer ≠ 0) {n : ℕ}
    (hn : n < Countdown.length (asChunksize arm) chan.otimer) :
    (transmitTick arm zone)^[n] chan =
      { chan with otimer := Countdown.after (asChunksize arm) n chan.otimer } := by
  induction n with
  | zero => rw [Function.iterate_zero_apply, Countdown.after_zero]
  | succ n ih =>
      have hne : Countdown.after (asChunksize arm) n chan.otimer ≠ 0 :=
        Countdown.after_ne_zero (chunk_pos arm) (Nat.lt_of_succ_lt hn) hzero
      have hout := Countdown.not_runsOut_after (chunk_pos arm) hn
      rw [Function.iterate_succ_apply', ih (Nat.lt_of_succ_lt hn), Countdown.after_succ]
      refine transmitTick_running ?_ ?_
      · exact hne
      · exact hout

theorem transmitTicks_length (hzero : chan.otimer ≠ 0) :
    (transmitTick arm zone)^[Countdown.length (asChunksize arm) chan.otimer] chan =
      chan.rbsOtimerExpire zone := by
  obtain ⟨n, hn⟩ :=
    Nat.exists_eq_succ_of_ne_zero (Countdown.length_pos (chunk_pos arm) hzero).ne'
  have hlt : n < Countdown.length (asChunksize arm) chan.otimer := by omega
  rw [hn, Function.iterate_succ_apply', transmitTicks_running hzero hlt]
  refine (transmitTick_expires ?_ ?_).trans rfl
  · exact Countdown.after_ne_zero (chunk_pos arm) hlt hzero
  · exact Countdown.runsOut_after (chunk_pos arm) (two_mul_chunk_le arm) hn.symm

theorem transmitTicks_idle (h : chan.otimer = 0) (n : ℕ) :
    (transmitTick arm zone)^[n] chan = chan :=
  Function.iterate_fixed (transmitTick_idle h) n

end LineChan

/-! ## The phases as they are -/

namespace RingCadence

variable {cad : RingCadence} {arm : Bool} {zone : ZoneRing} {chan line : LineChan} {k : ℕ}

variable (cad) in
/-- The time that phase `k` gets. The first phase of a later round has the time of the zone,
unless the cadence fills the whole array. -/
def taken (zone : ZoneRing) (k : ℕ) : CInt :=
  if k ≠ 0 ∧ k % cad.used = 0 ∧ cad.used < 16 then zone.ringcadence 0 else cad.time k

variable (cad) in
def armed (zone : ZoneRing) (k : ℕ) : CInt := cad.taken zone k * 8

variable (cad) in
def ticks (arm : Bool) (zone : ZoneRing) (k : ℕ) : Option ℕ :=
  if cad.armed zone k = 0 then none
  else some (Countdown.length (asChunksize arm) (cad.armed zone k))

variable (cad) in
structure Begins (zone : ZoneRing) (chan : LineChan) (k : ℕ) (line : LineChan) : Prop where
  inPhase : cad.InPhase chan k line
  timer : line.otimer = cad.armed zone k
  cadence : line.ringcadence = cad.entries

theorem time_eq {i : Fin 16} (h : (i : ℕ) = k % cad.used) : cad.time k = cad.entries i := by
  have hlt : k % cad.used < 16 := h ▸ i.isLt
  rw [time, dif_pos hlt]
  congr
  exact h.symm

theorem time_zero (cad : RingCadence) : cad.time 0 = cad.entries 0 :=
  time_eq (Nat.zero_mod _).symm

theorem time_of_empty (h : cad.used = 0) (k : ℕ) : cad.time k = 0 := by
  unfold time
  split_ifs with hlt
  · exact cad.zero _ (by omega)
  · rfl

theorem entries_ne_zero {i : Fin 16} (h : (i : ℕ) < cad.used) : cad.entries i ≠ 0 := by
  intro hzero
  have hpos := cad.positive i h
  rw [hzero] at hpos
  exact absurd hpos (by decide)

theorem time_pos (hused : 0 < cad.used) (k : ℕ) : 0 < (cad.time k).toInt := by
  have hlt : k % cad.used < cad.used := Nat.mod_lt k hused
  rw [time_eq (i := ⟨k % cad.used, hlt.trans_le cad.used_le⟩) rfl]
  exact cad.positive _ hlt

theorem chunks_time_pos (arm : Bool) (hused : 0 < cad.used) (k : ℕ) :
    0 < chunks arm (cad.time k) := by
  have hpos := time_pos hused k
  unfold chunks
  by_contra hzero
  have hle := (ceilDiv_le_iff_le_smul (chunk_pos arm)).mp (not_lt.mp hzero)
  rw [smul_zero] at hle
  omega

variable (zone) in
theorem nextCadence_eq (hused : 0 < cad.used) (hpos : (line.cadencepos : ℕ) = k % cad.used)
    (hcad : line.ringcadence = cad.entries) :
    ((line.nextCadence zone).1 : ℕ) = (k + 1) % cad.used ∧
      (line.nextCadence zone).2 * 8 = cad.armed zone (k + 1) := by
  have hlt : k % cad.used < cad.used := Nat.mod_lt k hused
  have hle := cad.used_le
  have hnext : ((line.cadencepos + 1 : Fin 16) : ℕ) = (k % cad.used + 1) % 16 := by
    rw [Fin.val_add, hpos]
    rfl
  unfold LineChan.nextCadence armed taken
  simp only [hcad]
  rcases Nat.lt_or_ge (k % cad.used + 1) cad.used with hmore | hlast
  · have hmod : (k + 1) % cad.used = k % cad.used + 1 := by
      rw [← Nat.mod_add_mod, Nat.mod_eq_of_lt hmore]
    have hval : ((line.cadencepos + 1 : Fin 16) : ℕ) = (k + 1) % cad.used := by
      rw [hnext, hmod, Nat.mod_eq_of_lt (by omega)]
    have hne : cad.entries (line.cadencepos + 1) ≠ 0 := entries_ne_zero (by omega)
    rw [if_neg hne, if_neg (by omega), time_eq hval]
    exact ⟨hval, rfl⟩
  · have hround : k % cad.used + 1 = cad.used := by omega
    have hmod : (k + 1) % cad.used = 0 := by
      rw [← Nat.mod_add_mod, hround, Nat.mod_self]
    rcases hle.eq_or_lt with hfull | hshort
    · -- the end of the array
      have hval : ((line.cadencepos + 1 : Fin 16) : ℕ) = (k + 1) % cad.used := by
        rw [hnext, hmod, hround, hfull]
      have hne : cad.entries (line.cadencepos + 1) ≠ 0 := entries_ne_zero (by omega)
      rw [if_neg hne, if_neg (by omega), time_eq hval]
      exact ⟨hval, rfl⟩
    · -- an entry of zero
      have hval : ((line.cadencepos + 1 : Fin 16) : ℕ) = cad.used := by
        rw [hnext, hround, Nat.mod_eq_of_lt hshort]
      have hzero : cad.entries (line.cadencepos + 1) = 0 := cad.zero _ hval.ge
      rw [if_pos hzero, if_pos ⟨k.succ_ne_zero, hmod, hshort⟩]
      exact ⟨hmod.symm, rfl⟩

theorem even_mod_used (cad : RingCadence) (k : ℕ) : Even (k % cad.used) ↔ Even k := by
  have hsum := Nat.mod_add_div k cad.used
  have heven : Even (cad.used * (k / cad.used)) := cad.even.mul_right _
  conv_rhs => rw [← hsum]
  rw [Nat.even_add]
  exact (iff_true_right heven).symm

theorem signals_succ (n : ℕ) :
    signals (n + 1) = signals n ++ [if Even n then .start else .offhook] := by
  simp [signals, List.range_succ]

theorem ringerEvents_succ (n : ℕ) :
    ringerEvents (n + 1) = ringerEvents n ++ [if Even n then .ringeroff else .ringeron] := by
  simp [ringerEvents, List.range_succ]

theorem InPhase.even_iff (h : cad.InPhase chan k line) :
    Even (line.cadencepos : ℕ) ↔ Even k := by
  rw [h.position, cad.even_mod_used]

theorem InPhase.expire (h : cad.InPhase chan k line) (hused : 0 < cad.used)
    (hcad : line.ringcadence = cad.entries) :
    cad.Begins zone chan (k + 1) (line.rbsOtimerExpire zone) := by
  obtain ⟨hnext, htimer⟩ := nextCadence_eq zone hused h.position hcad
  have heven : Even ((line.nextCadence zone).1 : ℕ) ↔ ¬Even k := by
    rw [hnext, cad.even_mod_used, Nat.even_add_one]
  by_cases hk : Even k
  · have hstate : line.txstate = .ringon := by
      rw [h.ringer, if_pos (h.even_iff.mpr hk)]
    have hexpire : line.rbsOtimerExpire zone =
        { line with
          otimer := (line.nextCadence zone).2 * 8, cadencepos := (line.nextCadence zone).1
          firstDialingTimer := zone.pause, txstate := .ringoff, sent := line.sent ++ [.offhook]
          events := line.events ++ [.ringeroff] } := by
      simp only [LineChan.rbsOtimerExpire, hstate]
      rfl
    rw [hexpire]
    refine ⟨⟨hnext, ?_, ?_, ?_⟩, htimer, hcad⟩
    · exact (if_neg fun hnot => heven.mp hnot hk).symm
    · rw [signals_succ, if_neg (by simpa [Nat.even_add_one] using hk), ← List.append_assoc,
        ← h.sent]
    · rw [ringerEvents_succ, if_pos hk, ← List.append_assoc, ← h.events]
  · have hstate : line.txstate = .ringoff := by
      rw [h.ringer, if_neg fun hpos => hk (h.even_iff.mp hpos)]
    have hexpire : line.rbsOtimerExpire zone =
        { line with
          otimer := (line.nextCadence zone).2 * 8, cadencepos := (line.nextCadence zone).1
          txstate := .ringon, sent := line.sent ++ [.start]
          events := line.events ++ [.ringeron] } := by
      simp only [LineChan.rbsOtimerExpire, hstate]
      rfl
    rw [hexpire]
    refine ⟨⟨hnext, ?_, ?_, ?_⟩, htimer, hcad⟩
    · exact (if_pos (heven.mpr hk)).symm
    · rw [signals_succ, if_pos (Nat.even_add_one.mpr hk), ← List.append_assoc, ← h.sent]
    · rw [ringerEvents_succ, if_neg hk, ← List.append_assoc, ← h.events]

theorem InPhase.of_otimer {otimer : CInt} (h : cad.InPhase chan k line) :
    cad.InPhase chan k { line with otimer } :=
  ⟨h.position, h.ringer, h.sent, h.events⟩

theorem InPhase.unique {k' : ℕ} (h : cad.InPhase chan k line) (h' : cad.InPhase chan k' line) :
    k = k' := by
  have hsignals := congrArg List.length (List.append_cancel_left (h.sent.symm.trans h'.sent))
  simpa [signals] using hsignals

theorem passesThrough (arm : Bool) (zone : ZoneRing) (hused : 0 < cad.used)
    (h : chan.CanRing cad) (delay : ℤ) :
    Phases.PassesThrough
      (fun n => (LineChan.transmitTick arm zone)^[n] (chan.hookIoctl delay (some .ring)).2)
      (cad.InPhase chan) (cad.Begins zone chan) (cad.ticks arm zone) where
  begins := by
    rw [Function.iterate_zero_apply, h.ring]
    refine ⟨⟨?_, ?_, ?_, ?_⟩, ?_, h.cadence⟩
    · exact (Nat.zero_mod _).symm
    · rfl
    · rfl
    · exact (List.append_nil _).symm
    · rw [armed, taken, if_neg fun hfirst => hfirst.1 rfl, time_zero]
  during := by
    intro k n j hk hj
    rw [Nat.add_comm, Function.iterate_add_apply]
    by_cases hzero : cad.armed zone k = 0
    · rw [LineChan.transmitTicks_idle (hk.timer.trans hzero)]
      exact hk.inPhase
    · have hlt := hj _ (if_neg hzero)
      rw [← hk.timer] at hzero hlt
      rw [LineChan.transmitTicks_running hzero hlt]
      exact hk.inPhase.of_otimer
  next := by
    intro k n l hk hl
    unfold ticks at hl
    split_ifs at hl with hzero
    obtain rfl := Option.some.inj hl
    rw [Nat.add_comm n, Function.iterate_add_apply]
    rw [← hk.timer] at hzero ⊢
    rw [LineChan.transmitTicks_length hzero]
    exact hk.inPhase.expire hused hk.cadence
  pos := by
    intro k l hl
    unfold ticks at hl
    split_ifs at hl with hzero
    obtain rfl := Option.some.inj hl
    exact Countdown.length_pos (chunk_pos arm) hzero
  unique := InPhase.unique

/-! ## When the phases are those of the cadence -/

def Lasts (arm : Bool) (time : CInt) (ticks : ℕ) : Prop :=
  time * 8 ≠ 0 ∧ Countdown.length (asChunksize arm) (time * 8) = ticks

instance (arm : Bool) (time : CInt) (ticks : ℕ) : Decidable (Lasts arm time ticks) :=
  inferInstanceAs (Decidable (_ ∧ _))

theorem lasts_chunks_iff (arm : Bool) {time : CInt} (hpos : 0 < time.toInt) :
    Lasts arm time (chunks arm time) ↔ 8 * time.toInt < 2 ^ 31 + asChunksize arm := by
  obtain ⟨hnat, -⟩ := Countdown.toNat_of_toInt_pos hpos
  have hword : time * 8 = BitVec.ofNat 32 (8 * time.toNat) := by
    apply BitVec.eq_of_toNat_eq
    rw [BitVec.toNat_mul, BitVec.toNat_ofNat, Nat.mul_comm]
    rfl
  have hchunks : chunks arm time = (8 * time.toNat) ⌈/⌉ asChunksize arm := by
    rw [chunks, ← hnat]
    rfl
  rw [Lasts, hword, hchunks,
    Countdown.length_ofNat_iff (chunk_pos arm) (two_mul_chunk_le arm) (by omega)]
  omega

/-- What the cadence must be like: no time overflows, and the first time of the zone, which a
round after the first one begins with, is as long as the channel's own. -/
def Rings (cad : RingCadence) (arm : Bool) (zone : ZoneRing) : Prop :=
  (∀ i : Fin 16, (i : ℕ) < cad.used → 8 * (cad.entries i).toInt < 2 ^ 31 + asChunksize arm) ∧
    (cad.used = 16 ∨ Lasts arm (zone.ringcadence 0) (chunks arm (cad.entries 0)))

instance (cad : RingCadence) (arm : Bool) (zone : ZoneRing) : Decidable (cad.Rings arm zone) :=
  inferInstanceAs (Decidable (_ ∧ _))

theorem ticks_eq_iff (arm : Bool) (zone : ZoneRing) (k n : ℕ) :
    cad.ticks arm zone k = some n ↔ Lasts arm (cad.taken zone k) n := by
  unfold ticks Lasts
  by_cases hzero : cad.taken zone k * 8 = 0
  · rw [armed, if_pos hzero]
    exact iff_of_false (by simp) fun h => h.1 hzero
  · rw [armed, if_neg hzero, Option.some_inj]
    exact (and_iff_right hzero).symm

theorem ticks_all_iff (arm : Bool) (zone : ZoneRing) (hused : 0 < cad.used) :
    (∀ k, cad.ticks arm zone k = some (chunks arm (cad.time k))) ↔ cad.Rings arm zone := by
  have hle := cad.used_le
  constructor
  · intro hall
    refine ⟨?_, ?_⟩
    · intro i hi
      have hi' := (ticks_eq_iff arm zone i _).mp (hall i)
      have htime : cad.time i = cad.entries i := time_eq (Nat.mod_eq_of_lt hi).symm
      rw [taken, if_neg fun hround => hround.1 (by rw [← Nat.mod_eq_of_lt hi]; exact hround.2.1),
        htime] at hi'
      exact (lasts_chunks_iff arm (cad.positive i hi)).mp hi'
    · by_contra hnot
      push Not at hnot
      have hround := (ticks_eq_iff arm zone cad.used _).mp (hall cad.used)
      have htime : cad.time cad.used = cad.entries 0 := time_eq (Nat.mod_self _).symm
      rw [taken, if_pos ⟨hused.ne', Nat.mod_self _, by omega⟩, htime] at hround
      exact hnot.2 hround
  · rintro ⟨htimes, hzone⟩ k
    have hmod : k % cad.used < cad.used := Nat.mod_lt k hused
    rw [ticks_eq_iff, taken]
    split_ifs with hround
    · have htime : cad.time k = cad.entries 0 := time_eq hround.2.1.symm
      rw [htime]
      exact hzone.resolve_left (by omega)
    · have htime : cad.time k = cad.entries ⟨k % cad.used, by omega⟩ := time_eq rfl
      rw [lasts_chunks_iff arm (time_pos hused k), htime]
      exact htimes _ hmod

end RingCadence

/-- A line rings by its cadence exactly if the cadence is empty, or no time overflows and the
rounds after the first one begin as the first. -/
theorem ringing_follows_cadence_iff (arm : Bool) (zone : ZoneRing) (cad : RingCadence)
    (chan : LineChan) (h : chan.CanRing cad) (delay : ℤ) :
    cad.Follows arm zone chan (chan.hookIoctl delay (some .ring)).2 ↔
      cad.used = 0 ∨ cad.Rings arm zone := by
  rcases Nat.eq_zero_or_pos cad.used with hused | hused
  · refine iff_of_true ?_ (.inl hused)
    intro n k _ hlt
    -- all phases are empty
    have hnone : ∀ i, RingCadence.chunks arm (cad.time i) = 0 := by
      intro i
      rw [RingCadence.time_of_empty hused, RingCadence.chunks]
      exact zero_ceilDiv _
    rw [Phases.start, Finset.sum_eq_zero fun i _ => hnone i] at hlt
    exact absurd hlt (Nat.not_lt_zero n)
  · rw [or_iff_right hused.ne', ← RingCadence.ticks_all_iff arm zone hused]
    exact (RingCadence.passesThrough arm zone hused h delay).follows_iff
      (RingCadence.chunks_time_pos arm hused)

def shortCadence : RingCadence where
  entries i := if i = 0 then 2 else if i = 1 then 4 else 0
  used := 2
  used_le := by decide
  even := by decide
  positive := by decide
  zero := by decide

theorem shortCadence_canRing :
    (createChannel .fxoks shortCadence.entries 0).CanRing shortCadence :=
  ⟨rfl, rfl, rfl, rfl⟩

/-- In a zone with the same first time the short cadence is kept. -/
theorem ringing_follows_short_cadence :
    shortCadence.Follows false ⟨fun _ => 2, 0⟩ (createChannel .fxoks shortCadence.entries 0)
      ((createChannel .fxoks shortCadence.entries 0).hookIoctl 0 (some .ring)).2 :=
  (ringing_follows_cadence_iff false ⟨fun _ => 2, 0⟩ shortCadence
    (createChannel .fxoks shortCadence.entries 0) shortCadence_canRing 0).mpr (by decide +kernel)

/-- In a zone that begins with five milliseconds the second round is too long. -/
theorem second_round_rings_by_zone :
    ¬shortCadence.Follows false ⟨fun _ => 5, 0⟩ (createChannel .fxoks shortCadence.entries 0)
      ((createChannel .fxoks shortCadence.entries 0).hookIoctl 0 (some .ring)).2 := by
  intro hfollows
  have hsilent := (hfollows 8 3 (by decide) (by decide)).sent
  exact absurd hsilent (by decide +kernel)

/-! ## Answering -/

namespace LineChan

/-- How often the line was told to ring, and how often that was reported. -/
def rings (chan : LineChan) : ℕ × ℕ := (chan.sent.count .start, chan.events.count .ringeron)

theorem rings_hookcomplete (chan : LineChan) : chan.hookcomplete.rings = chan.rings := by
  unfold hookcomplete
  split_ifs
  · simp [rings, qevent]
  · rfl

variable {arm : Bool} {zone : ZoneRing} {chan : LineChan}

theorem rings_rbsOtimerExpire (h : chan.txstate ≠ .ringoff) :
    (chan.rbsOtimerExpire zone).rings = chan.rings := by
  cases hstate : chan.txstate with
  | ringoff => exact absurd hstate h
  | ringon | start | prewink | preflash | onhook | offhook =>
      simp [rbsOtimerExpire, hstate, rings, qevent, rbsSethook]
  | wink | flash | afterstart | kewl =>
      simp only [rbsOtimerExpire, hstate, rings_hookcomplete]
      simp [rings, rbsSethook]
  | debounce =>
      simp only [rbsOtimerExpire, hstate]
      split_ifs <;> simp [rings, rbsSethook]
  | afterkewl =>
      simp only [rbsOtimerExpire, hstate]
      split_ifs <;> simp [rings, qevent]

theorem rings_receiveTick (arm : Bool) (chan : LineChan) :
    (chan.receiveTick arm).rings = chan.rings := by
  have hreceived := receiveTick_received arm chan
  obtain ⟨digits, hdigits, hevents⟩ := hreceived.events
  have hzero : digits.count .ringeron = 0 := by
    rw [List.count_eq_zero]
    intro hmem
    obtain ⟨digit, hdigit⟩ := hdigits _ hmem
    cases hdigit
  have hexpiry : expiryEvent chan.sig ≠ .ringeron := by
    unfold expiryEvent
    split_ifs <;> decide
  rw [rings, rings, hreceived.sent, hevents]
  simp only [List.count_append, hzero]
  split_ifs <;> simp [hexpiry]

theorem rings_hooksigFxo (rxsig : RxSig) (chan : LineChan) :
    (chan.hooksigFxo rxsig).rings = chan.rings := by
  cases rxsig with
  | offhook =>
      unfold hooksigFxo
      dsimp only
      split_ifs <;> simp [rings, qevent, rbsSethook]
  | onhook => simp [hooksigFxo, rings, qevent]
  | start | ring | initial => rfl

theorem rings_hooksigFxsgs (rxsig : RxSig) (chan : LineChan) :
    (chan.hooksigFxsgs rxsig).rings = chan.rings := by
  unfold hooksigFxsgs
  dsimp only
  split_ifs <;> simp [rings, qevent]

theorem rings_hooksigPvt (rxsig : RxSig) (chan : LineChan) :
    (chan.hooksigPvt rxsig).rings = chan.rings := by
  unfold hooksigPvt
  split_ifs
  · rfl
  cases hsig : chan.sig with
  | none | fxsls => rfl
  | fxols | fxoks => exact rings_hooksigFxo rxsig _
  | fxsgs => exact rings_hooksigFxsgs rxsig _
  | fxsks =>
      dsimp only
      split_ifs
      · rfl
      · exact rings_hooksigFxsgs rxsig _
  | fxogs =>
      refine (rings_hooksigFxo rxsig _).trans ?_
      split_ifs <;> simp [rings, qevent]

theorem rings_hangup (chan : LineChan) : chan.hangup.rings = chan.rings := by
  unfold hangup
  dsimp only
  split_ifs <;> simp [rings, rbsSethook]

theorem rbsOtimerExpire_txstate (hon : chan.txstate ≠ .ringon) (hoff : chan.txstate ≠ .ringoff) :
    (chan.rbsOtimerExpire zone).txstate ≠ .ringon ∧
      (chan.rbsOtimerExpire zone).txstate ≠ .ringoff := by
  cases hstate : chan.txstate with
  | ringon => exact absurd hstate hon
  | ringoff => exact absurd hstate hoff
  | start | prewink | preflash | onhook | offhook =>
      simp [rbsOtimerExpire, hstate, rbsSethook]
  | wink | flash | afterstart | kewl =>
      simp only [rbsOtimerExpire, hstate, hookcomplete]
      split_ifs <;> simp [rbsSethook, qevent]
  | debounce =>
      simp only [rbsOtimerExpire, hstate]
      split_ifs <;> simp [rbsSethook]
  | afterkewl => simp [rbsOtimerExpire, hstate]

/-- A request to ring that is accepted. `AS_START` is the same case of the code. -/
def RingAccepted (chan : LineChan) : LineInput → Prop
  | .request (some .ring) _ | .request (some .start) _ =>
      chan.clear = false ∧ chan.txstate = .onhook
  | .request (some .onhook) _ | .request (some .offhook) _ | .request (some .wink) _
  | .request (some .flash) _ | .request (some .ringoff) _ | .request none _
  | .transmit | .receive | .report _ => False

instance (chan : LineChan) : (e : LineInput) → Decidable (chan.RingAccepted e)
  | .request (some .ring) _ | .request (some .start) _ => inferInstanceAs (Decidable (_ ∧ _))
  | .request (some .onhook) _ | .request (some .offhook) _ | .request (some .wink) _
  | .request (some .flash) _ | .request (some .ringoff) _ | .request none _
  | .transmit | .receive | .report _ => .isFalse id

theorem rings_hookIoctl {request : Option HookRequest} {delay : ℤ}
    (h : ¬chan.RingAccepted (.request request delay)) :
    (chan.hookIoctl delay request).2.rings = chan.rings := by
  by_cases hclear : chan.clear = true
  · unfold hookIoctl
    rw [if_pos hclear]
  unfold hookIoctl
  rw [if_neg hclear]
  match request with
  | some .ring | some .start =>
      have hstate : chan.txstate ≠ .onhook := fun hstate => h ⟨by simpa using hclear, hstate⟩
      simp only [if_pos hstate]
  | some .onhook => exact rings_hangup chan
  | some .offhook | some .wink | some .flash =>
      dsimp only
      split_ifs <;> simp [rings, rbsSethook]
  | some .ringoff => simp [rings, rbsSethook]
  | none => rfl

def stepUntilRing (arm : Bool) (zone : ZoneRing) (e : LineInput) (chan : LineChan) :
    Option LineChan :=
  if chan.RingAccepted e then none else chan.step arm zone e

/-! ### The cadence of a line that is answered -/

/-- No cadence goes on: its timer does not run or runs for something else, or the line rings and a
time of zero comes next. -/
def CadenceOver (zone : ZoneRing) (chan : LineChan) : Prop :=
  chan.otimer = 0 ∨
    chan.txstate ≠ .ringoff ∧ (chan.txstate = .ringon → (chan.nextCadence zone).2 * 8 = 0)

theorem cadenceOver_of_state (hon : chan.txstate ≠ .ringon) (hoff : chan.txstate ≠ .ringoff) :
    chan.CadenceOver zone :=
  .inr ⟨hoff, fun h => absurd h hon⟩

structure SameCadence (chan chan' : LineChan) : Prop where
  txstate : chan'.txstate = chan.txstate
  otimer : chan'.otimer = chan.otimer
  ringcadence : chan'.ringcadence = chan.ringcadence
  cadencepos : chan'.cadencepos = chan.cadencepos

theorem SameCadence.trans {chan' chan'' : LineChan} (h : chan.SameCadence chan')
    (h' : chan'.SameCadence chan'') : chan.SameCadence chan'' where
  txstate := h'.txstate.trans h.txstate
  otimer := h'.otimer.trans h.otimer
  ringcadence := h'.ringcadence.trans h.ringcadence
  cadencepos := h'.cadencepos.trans h.cadencepos

theorem SameCadence.over_iff {chan' : LineChan} (h : chan.SameCadence chan') :
    chan'.CadenceOver zone ↔ chan.CadenceOver zone := by
  unfold CadenceOver nextCadence
  rw [h.txstate, h.otimer, h.ringcadence, h.cadencepos]

theorem sameCadence_receiveTick (arm : Bool) (chan : LineChan) :
    chan.SameCadence (chan.receiveTick arm) :=
  have h := receiveTick_received arm chan
  ⟨h.txstate, h.otimer, h.ringcadence, h.cadencepos⟩

/-- A report leaves the cadence alone, unless the line is then on the hook or after a start. -/
theorem hooksigFxo_cadence (rxsig : RxSig) (chan : LineChan) :
    chan.SameCadence (chan.hooksigFxo rxsig) ∨
      (chan.hooksigFxo rxsig).txstate = .onhook ∧ rxsig = .onhook ∨
      (chan.hooksigFxo rxsig).txstate = .afterstart ∧ chan.txstate = .start := by
  cases rxsig with
  | offhook =>
      by_cases hstart : chan.txstate = .start
      · right; right
        unfold hooksigFxo
        dsimp only
        split_ifs <;> simp_all [rbsSethook, qevent]
      · left
        unfold hooksigFxo
        dsimp only
        split_ifs <;> exact ⟨rfl, rfl, rfl, rfl⟩
  | onhook => exact .inr (.inl ⟨by simp [hooksigFxo, qevent], rfl⟩)
  | start | ring | initial => exact .inl ⟨rfl, rfl, rfl, rfl⟩

theorem sameCadence_hooksigFxsgs (rxsig : RxSig) (chan : LineChan) :
    chan.SameCadence (chan.hooksigFxsgs rxsig) := by
  unfold hooksigFxsgs
  dsimp only
  split_ifs <;> exact ⟨rfl, rfl, rfl, rfl⟩

theorem hooksigPvt_cadence (rxsig : RxSig) (chan : LineChan) :
    chan.SameCadence (chan.hooksigPvt rxsig) ∨
      (chan.hooksigPvt rxsig).txstate = .onhook ∧ rxsig = .onhook ∨
      (chan.hooksigPvt rxsig).txstate = .afterstart ∧ chan.txstate = .start := by
  unfold hooksigPvt
  split_ifs
  · exact .inl ⟨rfl, rfl, rfl, rfl⟩
  extract_lets noted _ started
  have hsame : chan.SameCadence noted := ⟨rfl, rfl, rfl, rfl⟩
  have hstarted : noted.SameCadence started := by
    unfold started
    split_ifs <;> exact ⟨rfl, rfl, rfl, rfl⟩
  clear_value started noted
  rw [← hsame.txstate]
  cases noted.sig with
  | none | fxsls => exact .inl hsame
  | fxols | fxoks => exact (hooksigFxo_cadence rxsig noted).imp_left hsame.trans
  | fxsgs => exact .inl (hsame.trans (sameCadence_hooksigFxsgs rxsig noted))
  | fxsks =>
      dsimp only
      split_ifs
      · exact .inl hsame
      · exact .inl (hsame.trans (sameCadence_hooksigFxsgs rxsig noted))
  | fxogs =>
      rw [← hstarted.txstate]
      exact (hooksigFxo_cadence rxsig started).imp_left (hsame.trans hstarted).trans

theorem cadenceOver_offhook_iff (zone : ZoneRing) (chan : LineChan) :
    (chan.hooksigPvt .offhook).CadenceOver zone ↔ chan.CadenceOver zone := by
  rcases hooksigPvt_cadence .offhook chan with hsame | ⟨-, h⟩ | ⟨hafter, hstart⟩
  · exact hsame.over_iff
  · cases h
  · refine iff_of_true (cadenceOver_of_state ?_ ?_) (cadenceOver_of_state ?_ ?_) <;>
      simp [hafter, hstart]

theorem CadenceOver.transmitTick (h : chan.CadenceOver zone) :
    (chan.transmitTick arm zone).CadenceOver zone ∧
      (chan.transmitTick arm zone).rings = chan.rings := by
  rcases h with hzero | ⟨hoff, hon⟩
  · rw [transmitTick_idle hzero]
    exact ⟨.inl hzero, rfl⟩
  by_cases hzero : chan.otimer = 0
  · rw [transmitTick_idle hzero]
    exact ⟨.inl hzero, rfl⟩
  by_cases hout : Countdown.RunsOut (asChunksize arm) chan.otimer
  · rw [transmitTick_expires hzero hout]
    refine ⟨?_, rings_rbsOtimerExpire hoff⟩
    by_cases hring : chan.txstate = .ringon
    · left
      simp only [rbsOtimerExpire, hring]
      exact hon hring
    · exact cadenceOver_of_state (rbsOtimerExpire_txstate hring hoff).1
        (rbsOtimerExpire_txstate hring hoff).2
  · rw [transmitTick_running hzero hout]
    exact ⟨.inr ⟨hoff, hon⟩, rfl⟩

theorem CadenceOver.hookIoctl {request : Option HookRequest} {delay : ℤ}
    (h : chan.CadenceOver zone) (hnot : ¬chan.RingAccepted (.request request delay)) :
    (chan.hookIoctl delay request).2.CadenceOver zone := by
  by_cases hclear : chan.clear = true
  · unfold LineChan.hookIoctl
    rwa [if_pos hclear]
  unfold LineChan.hookIoctl
  rw [if_neg hclear]
  match request with
  | some .ring | some .start =>
      have hstate : chan.txstate ≠ .onhook := fun hstate => hnot ⟨by simpa using hclear, hstate⟩
      simpa only [if_pos hstate] using h
  | some .onhook =>
      apply cadenceOver_of_state <;> unfold hangup <;> dsimp only <;> split_ifs <;>
        simp [rbsSethook]
  | some .offhook | some .wink | some .flash =>
      dsimp only
      split_ifs
      all_goals first
        | exact h
        | exact cadenceOver_of_state (by simp [rbsSethook]) (by simp [rbsSethook])
  | some .ringoff => exact .inl rfl
  | none => exact h

/-- Whatever happens, a cadence that is over does not go on until the line is asked to ring. -/
theorem CadenceOver.step {e : LineInput} {chan' : LineChan} (h : chan.CadenceOver zone)
    (hstep : chan.stepUntilRing arm zone e = some chan') :
    chan'.CadenceOver zone ∧ chan'.rings = chan.rings := by
  unfold stepUntilRing at hstep
  split_ifs at hstep with haccepted
  cases e with
  | transmit =>
      obtain rfl := Option.some.inj hstep
      exact h.transmitTick
  | receive =>
      obtain rfl := Option.some.inj hstep
      exact ⟨(sameCadence_receiveTick arm chan).over_iff.mpr h, rings_receiveTick arm chan⟩
  | report rxsig =>
      obtain rfl := Option.some.inj hstep
      refine ⟨?_, rings_hooksigPvt rxsig chan⟩
      rcases hooksigPvt_cadence rxsig chan with hsame | ⟨hstate, -⟩ | ⟨hstate, -⟩
      · exact hsame.over_iff.mpr h
      · apply cadenceOver_of_state <;> simp [hstate]
      · apply cadenceOver_of_state <;> simp [hstate]
  | request request delay =>
      obtain rfl := Option.some.inj hstep
      exact ⟨h.hookIoctl haccepted, rings_hookIoctl haccepted⟩

theorem rings_of_ringoff (hoff : chan.txstate = .ringoff) (hzero : chan.otimer ≠ 0) :
    ((transmitTick arm zone)^[Countdown.length (asChunksize arm) chan.otimer] chan).rings ≠
      chan.rings := by
  rw [transmitTicks_length hzero]
  simp [rbsOtimerExpire, hoff, rings, qevent, rbsSethook]

/-- A cadence that is not over makes the line ring after so many transmit ticks. -/
theorem exists_rings_of_not_over (arm : Bool) (h : ¬chan.CadenceOver zone) :
    ∃ n, ((transmitTick arm zone)^[n] chan).rings ≠ chan.rings := by
  rw [CadenceOver, not_or] at h
  obtain ⟨hzero, h⟩ := h
  by_cases hoff : chan.txstate = .ringoff
  · exact ⟨_, rings_of_ringoff hoff hzero⟩
  -- the ringing ends with a silence
  simp only [ne_eq, hoff, not_false_eq_true, true_and, Classical.not_imp] at h
  obtain ⟨hon, hnext⟩ := h
  have hsilent : (chan.rbsOtimerExpire zone).txstate = .ringoff ∧
      (chan.rbsOtimerExpire zone).otimer ≠ 0 := by
    simp only [rbsOtimerExpire, hon]
    exact ⟨rfl, hnext⟩
  have hend : (transmitTick arm zone)^[Countdown.length (asChunksize arm) chan.otimer] chan =
      chan.rbsOtimerExpire zone := transmitTicks_length hzero
  refine ⟨Countdown.length (asChunksize arm) (chan.rbsOtimerExpire zone).otimer +
    Countdown.length (asChunksize arm) chan.otimer, ?_⟩
  rw [Function.iterate_add_apply, hend, ← rings_rbsOtimerExpire hoff]
  exact rings_of_ringoff hsilent.1 hsilent.2

theorem finish_transmit (arm : Bool) (zone : ZoneRing) (n : ℕ) (chan : LineChan) :
    Machine.finish (stepUntilRing arm zone) (List.replicate n .transmit) chan =
      some ((transmitTick arm zone)^[n] chan) := by
  induction n generalizing chan with
  | zero => rfl
  | succ n ih =>
      rw [List.replicate_succ, Machine.finish, Function.iterate_succ_apply, ← ih]
      rfl

end LineChan

/-- After an off-hook report the line stays silent, whatever happens until it is asked to ring
again and however many transmit ticks come, exactly if no cadence goes on when the report
comes. -/
theorem answered_line_silent_iff (arm : Bool) (zone : ZoneRing) (chan : LineChan) :
    ((∀ inputs line, Machine.Visits (LineChan.stepUntilRing arm zone) (chan.hooksigPvt .offhook)
        inputs line → line.rings = chan.rings) ↔ chan.CadenceOver zone) ∧
      ((∀ n, ((LineChan.transmitTick arm zone)^[n] (chan.hooksigPvt .offhook)).rings =
        chan.rings) ↔ chan.CadenceOver zone) := by
  have hreport := LineChan.rings_hooksigPvt .offhook chan
  have hsilent : chan.CadenceOver zone → ∀ inputs line,
      Machine.Visits (LineChan.stepUntilRing arm zone) (chan.hooksigPvt .offhook) inputs line →
        line.rings = chan.rings := by
    intro hover inputs line hvisits
    apply And.right (a := line.CadenceOver zone)
    refine hvisits.invariant (P := fun line => line.CadenceOver zone ∧ line.rings = chan.rings)
      ?_ ⟨(LineChan.cadenceOver_offhook_iff zone chan).mpr hover, hreport⟩
    intro e line line' h hstep
    obtain ⟨hover', hrings⟩ := h.1.step hstep
    exact ⟨hover', hrings.trans h.2⟩
  have hticks : (∀ n, ((LineChan.transmitTick arm zone)^[n] (chan.hooksigPvt .offhook)).rings =
      chan.rings) → chan.CadenceOver zone := by
    intro hall
    by_contra hnot
    rw [← LineChan.cadenceOver_offhook_iff] at hnot
    obtain ⟨n, hn⟩ := LineChan.exists_rings_of_not_over arm hnot
    exact hn ((hall n).trans hreport.symm)
  have hvisits : ∀ n, Machine.Visits (LineChan.stepUntilRing arm zone) (chan.hooksigPvt .offhook)
      (List.replicate n .transmit)
      ((LineChan.transmitTick arm zone)^[n] (chan.hooksigPvt .offhook)) := fun n =>
    Machine.visits_of_finish (LineChan.finish_transmit arm zone n _)
  exact ⟨⟨fun hall => hticks fun n => hall _ _ (hvisits n), hsilent⟩,
    hticks, fun hover n => hsilent hover _ _ (hvisits n)⟩

/-- A telephone that is answered after one millisecond rings again. -/
theorem answered_line_rings_again :
    ∃ line, Machine.Visits (LineChan.stepUntilRing false ⟨fun _ => 2, 0⟩)
        ((((createChannel .fxoks shortCadence.entries 0).hookIoctl 0 (some .ring)).2.transmitTick
          false ⟨fun _ => 2, 0⟩).hooksigPvt .offhook) (List.replicate 5 .transmit) line ∧
      line.sent = [.start, .offhook, .start] ∧
      line.events = [.ringoffhook, .ringeroff, .ringeron] :=
  Machine.exists_visits (by decide +kernel)

end Slic
end WirelessMesh
