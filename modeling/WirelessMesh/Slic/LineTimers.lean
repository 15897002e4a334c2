import WirelessMesh.Slic.Line
import Mathlib.Data.List.Count

/-!
# The timers of the receive interrupt

A receive tick lowers the timers of a line by a chunk. The timer of winks and flashes acts when
nothing or less is left and is idle at zero, the time after a ring acts when it is exactly
zero. Neither is set to zero in the end, so that both depend on a multiple of the chunk.
-/

namespace WirelessMesh
namespace Slic

namespace LineChan

def receiveTicks (arm : Bool) (n : ℕ) (chan : LineChan) : LineChan := (receiveTick arm)^[n] chan

/-- The numbers of the receive ticks, counted from one, at which the timer of winks and flashes
acts. -/
def expiries (arm : Bool) (chan : LineChan) (n : ℕ) : List ℕ :=
  ((List.range n).filter fun i => (chan.receiveTicks arm i).ItimerDue arm).map Nat.succ

def dueTick (arm : Bool) (samples : ℤ) : ℕ := samples.toNat ⌈/⌉ asChunksize arm

/-- The timer acts once, when its samples have passed, and is idle from then on. -/
def FiresOnce (arm : Bool) (chan : LineChan) : Prop :=
  ∀ n, chan.expiries arm n =
      (if dueTick arm chan.itimer.toInt ≤ n then [dueTick arm chan.itimer.toInt] else []) ∧
    (dueTick arm chan.itimer.toInt ≤ n → (chan.receiveTicks arm n).itimer = 0)

/-- Once the time after a ring has passed, its end was reported exactly once. On a line of
`AS_SIG_FXS` the timer of winks and flashes queues the same event. -/
def ReportsRing (arm : Bool) (chan : LineChan) : Prop :=
  ∀ n, dueTick arm asRingtrailer.toInt ≤ n →
    (chan.receiveTicks arm n).events.count .ringoffhook =
      chan.events.count .ringoffhook + 1 + (chan.expiries arm n).length

variable {arm : Bool} {chan : LineChan} {n : ℕ}

theorem receiveTicks_succ (arm : Bool) (n : ℕ) (chan : LineChan) :
    chan.receiveTicks arm (n + 1) = (chan.receiveTicks arm n).receiveTick arm :=
  Function.iterate_succ_apply' _ _ _

theorem expiries_succ (arm : Bool) (chan : LineChan) (n : ℕ) :
    chan.expiries arm (n + 1) = chan.expiries arm n ++
      if (chan.receiveTicks arm n).ItimerDue arm then [n + 1] else [] := by
  unfold expiries
  rw [List.range_succ, List.filter_append, List.map_append]
  by_cases h : (chan.receiveTicks arm n).ItimerDue arm <;> simp [h]

/-! ## Winks and flashes -/

variable (arm) in
theorem receiveTicks_itimer (hzero : chan.itimer ≠ 0)
    (hn : n ≤ Countdown.length (asChunksize arm) chan.itimer) :
    (chan.receiveTicks arm n).itimer = Countdown.after (asChunksize arm) n chan.itimer := by
  induction n with
  | zero => exact (Countdown.after_zero _ _).symm
  | succ n ih =>
      have hprev := ih (Nat.le_of_succ_le hn)
      have hne := Countdown.after_ne_zero (chunk_pos arm) hn hzero
      rw [receiveTicks_succ, (receiveTick_received _ _).itimer, hprev, if_neg hne,
        Countdown.after_succ]

theorem receiveTicks_itimer_idle {m : ℕ} (h : (chan.receiveTicks arm n).itimer = 0)
    (hle : n ≤ m) : (chan.receiveTicks arm m).itimer = 0 := by
  induction m, hle using Nat.le_induction with
  | base => exact h
  | succ m _ ih => rw [receiveTicks_succ, (receiveTick_received _ _).itimer, if_pos ih]

section Positive

variable (hpos : 0 < chan.itimer.toInt)
include hpos

theorem length_eq_dueTick (arm : Bool) :
    Countdown.length (asChunksize arm) chan.itimer = dueTick arm chan.itimer.toInt := by
  obtain ⟨hnat, hlt⟩ := Countdown.toNat_of_toInt_pos hpos
  rw [Countdown.length, if_pos (by omega), dueTick, ← hnat, Int.toNat_natCast]

theorem itimer_ne_zero_of_pos : chan.itimer ≠ 0 := by
  intro hzero
  rw [hzero] at hpos
  exact absurd hpos (by decide)

theorem itimerDue_receiveTicks (arm : Bool) (hn : n < dueTick arm chan.itimer.toInt) :
    (chan.receiveTicks arm n).ItimerDue arm ↔ n + 1 = dueTick arm chan.itimer.toInt := by
  have hzero := itimer_ne_zero_of_pos hpos
  rw [← length_eq_dueTick hpos] at hn ⊢
  have hitimer := receiveTicks_itimer arm hzero hn.le
  constructor
  · intro hdue
    by_contra hlast
    have hout := hdue.2
    rw [hitimer] at hout
    exact Countdown.not_runsOut_after (chunk_pos arm) (by omega) hout
  · intro hlast
    refine ⟨?_, ?_⟩
    · rw [hitimer]
      exact Countdown.after_ne_zero (chunk_pos arm) hn hzero
    · rw [hitimer]
      exact Countdown.runsOut_after (chunk_pos arm) (two_mul_chunk_le arm) hlast

/-- The timer is idle after it has acted exactly if it was a multiple of the chunk. -/
theorem itimer_dueTick_eq_zero_iff (arm : Bool) :
    (chan.receiveTicks arm (dueTick arm chan.itimer.toInt)).itimer = 0 ↔
      (asChunksize arm : ℤ) ∣ chan.itimer.toInt := by
  obtain ⟨hnat, hlt⟩ := Countdown.toNat_of_toInt_pos hpos
  rw [receiveTicks_itimer arm (itimer_ne_zero_of_pos hpos) (length_eq_dueTick hpos arm).ge,
    ← length_eq_dueTick hpos,
    Countdown.after_length_eq_zero_iff (chunk_pos arm) (two_mul_chunk_le arm) (by omega) hlt,
    ← hnat, Int.natCast_dvd_natCast]

theorem expiries_of_le_dueTick (arm : Bool) (hn : n ≤ dueTick arm chan.itimer.toInt) :
    chan.expiries arm n =
      if dueTick arm chan.itimer.toInt ≤ n then [dueTick arm chan.itimer.toInt] else [] := by
  induction n with
  | zero =>
      have hlength := Countdown.length_pos (chunk_pos arm) (itimer_ne_zero_of_pos hpos)
      rw [length_eq_dueTick hpos] at hlength
      rw [if_neg (by omega)]
      rfl
  | succ n ih =>
      rw [expiries_succ, ih (Nat.le_of_succ_le hn), if_neg (by omega), List.nil_append]
      simp only [itimerDue_receiveTicks hpos arm hn]
      by_cases hlast : n + 1 = dueTick arm chan.itimer.toInt
      · rw [if_pos hlast, if_pos hlast.ge, hlast]
      · rw [if_neg hlast, if_neg (by omega)]

end Positive

theorem expiries_of_idle {m : ℕ} (h : (chan.receiveTicks arm n).itimer = 0) (hle : n ≤ m) :
    chan.expiries arm m = chan.expiries arm n := by
  induction m, hle using Nat.le_induction with
  | base => rfl
  | succ m hle ih =>
      have hidle : ¬(chan.receiveTicks arm m).ItimerDue arm :=
        fun hdue => hdue.1 (receiveTicks_itimer_idle h hle)
      rw [expiries_succ, if_neg hidle, List.append_nil, ih]

theorem firesOnce_iff (arm : Bool) (chan : LineChan) :
    chan.FiresOnce arm ↔ 0 < chan.itimer.toInt ∧ (asChunksize arm : ℤ) ∣ chan.itimer.toInt := by
  constructor
  · intro hfires
    have hpos : 0 < chan.itimer.toInt := by
      by_contra hneg
      -- the tick with the number zero does not exist
      have hdue : dueTick arm chan.itimer.toInt = 0 := by
        rw [dueTick, Int.toNat_eq_zero.mpr (not_lt.mp hneg), zero_ceilDiv]
      have hnone := (hfires 0).1
      rw [hdue, if_pos le_rfl] at hnone
      exact absurd hnone (by simp [expiries])
    exact ⟨hpos, (itimer_dueTick_eq_zero_iff hpos arm).mp ((hfires _).2 le_rfl)⟩
  · rintro ⟨hpos, hdvd⟩ n
    have hidle := (itimer_dueTick_eq_zero_iff hpos arm).mpr hdvd
    refine ⟨?_, fun hle => receiveTicks_itimer_idle hidle hle⟩
    rcases Nat.le_total n (dueTick arm chan.itimer.toInt) with hle | hle
    · exact expiries_of_le_dueTick hpos arm hle
    · rw [expiries_of_idle hidle hle, expiries_of_le_dueTick hpos arm le_rfl, if_pos le_rfl,
        if_pos hle]

/-! ## The end of a ring -/

/-- The line after a ring: the last tick of the ring has set the time that must pass, and the
report has ended the ring. -/
structure AfterRing (chan : LineChan) : Prop where
  fxs : chan.sig.isFxs
  quiet : chan.rxhooksig ≠ .ring
  trailer : chan.ringtrailer = asRingtrailer

/-- The number of receive ticks that found the time after the ring at its end. -/
def ringEnds (arm : Bool) (chan : LineChan) (n : ℕ) : ℕ :=
  (List.range n).countP fun i => (chan.receiveTicks arm i).ringdebTick.RingOver arm

theorem ringEnds_succ (arm : Bool) (chan : LineChan) (n : ℕ) :
    chan.ringEnds arm (n + 1) = chan.ringEnds arm n +
      if (chan.receiveTicks arm n).ringdebTick.RingOver arm then 1 else 0 := by
  unfold ringEnds
  rw [List.range_succ, List.countP_append, List.countP_singleton]
  simp only [decide_eq_true_eq]

def ringTick (arm : Bool) : ℕ := dueTick arm asRingtrailer.toInt

theorem ringTick_eq (arm : Bool) :
    ringTick arm = Countdown.length (asChunksize arm) asRingtrailer := by
  cases arm <;> decide

theorem receiveTicks_same (arm : Bool) (chan : LineChan) (n : ℕ) :
    (chan.receiveTicks arm n).sig = chan.sig ∧
      (chan.receiveTicks arm n).rxhooksig = chan.rxhooksig := by
  induction n with
  | zero => exact ⟨rfl, rfl⟩
  | succ n ih =>
      have hreceived := receiveTick_received arm (chan.receiveTicks arm n)
      rw [receiveTicks_succ]
      exact ⟨hreceived.sig.trans ih.1, hreceived.rxhooksig.trans ih.2⟩

theorem count_ringoffhook (arm : Bool) (hfxs : chan.sig.isFxs) (n : ℕ) :
    (chan.receiveTicks arm n).events.count .ringoffhook =
      chan.events.count .ringoffhook + chan.ringEnds arm n + (chan.expiries arm n).length := by
  induction n with
  | zero => rfl
  | succ n ih =>
      obtain ⟨digits, hdigits, hevents⟩ :=
        (receiveTick_received arm (chan.receiveTicks arm n)).events
      have hzero : digits.count .ringoffhook = 0 := by
        rw [List.count_eq_zero]
        intro hmem
        obtain ⟨digit, hdigit⟩ := hdigits _ hmem
        cases hdigit
      have hevent : expiryEvent chan.sig = .ringoffhook := by
        cases hsig : chan.sig <;> simp_all [expiryEvent, Sig.isFxs, Sig.isFxo]
      rw [receiveTicks_succ, hevents, (receiveTicks_same arm chan n).1, hevent, ringEnds_succ,
        expiries_succ, List.length_append]
      simp only [List.count_append, hzero, ih]
      split_ifs <;> simp <;> omega

theorem ringdebTick_sig (chan : LineChan) : chan.ringdebTick.sig = chan.sig := by
  rw [ringdebTick_eq]

theorem ringdebTick_rxhooksig (chan : LineChan) :
    chan.ringdebTick.rxhooksig = chan.rxhooksig := by
  rw [ringdebTick_eq]

theorem ringdebTick_ringtrailer (chan : LineChan) :
    chan.ringdebTick.ringtrailer = chan.ringtrailer := by
  rw [ringdebTick_eq]

section Trailer

variable (h : AfterRing chan)
include h

theorem AfterRing.receiveTick_ringtrailer (arm : Bool) (n : ℕ) :
    (chan.receiveTicks arm (n + 1)).ringtrailer =
      if (chan.receiveTicks arm n).ringtrailer = 0 then 0
      else (chan.receiveTicks arm n).ringtrailer - BitVec.ofNat 32 (asChunksize arm) := by
  obtain ⟨hsig, hrx⟩ := receiveTicks_same arm chan n
  rw [receiveTicks_succ, (receiveTick_received _ _).ringtrailer, trailerTick_eq]
  simp only [hsig, hrx, h.fxs, h.quiet, Bool.true_eq_false, if_false]
  split_ifs with hzero
  · exact hzero
  · rfl

theorem AfterRing.ringtrailer_of_le (arm : Bool) (hn : n ≤ ringTick arm) :
    (chan.receiveTicks arm n).ringtrailer =
      Countdown.after (asChunksize arm) n asRingtrailer := by
  rw [ringTick_eq] at hn
  induction n with
  | zero => exact h.trailer.trans (Countdown.after_zero _ _).symm
  | succ n ih =>
      have hprev := ih (Nat.le_of_succ_le hn)
      have hne := Countdown.after_ne_zero (chunk_pos arm) hn (by decide)
      rw [h.receiveTick_ringtrailer, hprev, if_neg hne, Countdown.after_succ]

omit h in
/-- The time after a ring is a multiple of the chunk only off the ARM board. -/
theorem after_succ_ringtrailer_eq_zero_iff (arm : Bool) (hn : n < ringTick arm) :
    Countdown.after (asChunksize arm) (n + 1) asRingtrailer = 0 ↔
      n + 1 = ringTick arm ∧ arm = false := by
  have hlast :
      Countdown.after (asChunksize arm) (ringTick arm) asRingtrailer = 0 ↔ arm = false := by
    cases arm <;> decide
  rcases Nat.lt_or_ge (n + 1) (ringTick arm) with hlt | hge
  · refine iff_of_false ?_ (by omega)
    rw [ringTick_eq] at hlt
    exact Countdown.after_ne_zero (chunk_pos arm) hlt (by decide)
  · obtain heq : n + 1 = ringTick arm := by omega
    rw [heq, hlast, eq_self_iff_true, true_and]

theorem AfterRing.ringOver_iff (arm : Bool) (hn : n < ringTick arm) :
    (chan.receiveTicks arm n).ringdebTick.RingOver arm ↔
      (n + 1 = ringTick arm ∧ arm = false) ∧
        (chan.receiveTicks arm (n + 1)).ringdebtimer = 0 := by
  obtain ⟨hsig, hrx⟩ := receiveTicks_same arm chan n
  have htrailer := h.ringtrailer_of_le arm hn.le
  have hne : Countdown.after (asChunksize arm) n asRingtrailer ≠ 0 := by
    rw [ringTick_eq] at hn
    exact Countdown.after_ne_zero (chunk_pos arm) hn (by decide)
  rw [← htrailer] at hne
  rw [receiveTicks_succ, (receiveTick_received _ _).ringdebtimer,
    ← after_succ_ringtrailer_eq_zero_iff arm hn, Countdown.after_succ, ← htrailer, RingOver,
    ringdebTick_sig, ringdebTick_rxhooksig, ringdebTick_ringtrailer, hsig, hrx]
  exact ⟨fun hover => hover.2.2.2, fun hover => ⟨h.fxs, h.quiet, hne, hover⟩⟩

theorem AfterRing.ringEnds_of_le (arm : Bool)
    (hdeb : (chan.receiveTicks arm (ringTick arm)).ringdebtimer = 0) (hn : n ≤ ringTick arm) :
    chan.ringEnds arm n = if n = ringTick arm ∧ arm = false then 1 else 0 := by
  induction n with
  | zero => cases arm <;> rfl
  | succ n ih =>
      rw [ringEnds_succ, ih (Nat.le_of_succ_le hn), if_neg (by omega), Nat.zero_add]
      apply if_congr _ rfl rfl
      rw [h.ringOver_iff arm hn]
      constructor
      · exact And.left
      · intro hlast
        refine ⟨hlast, ?_⟩
        rw [hlast.1]
        exact hdeb

theorem AfterRing.ringEnds_of_ge (hle : ringTick false ≤ n) :
    chan.ringEnds false n = chan.ringEnds false (ringTick false) := by
  have hidle : (chan.receiveTicks false n).ringtrailer = 0 ∧
      chan.ringEnds false n = chan.ringEnds false (ringTick false) := by
    induction n, hle using Nat.le_induction with
    | base => exact ⟨(h.ringtrailer_of_le false le_rfl).trans (by decide), rfl⟩
    | succ n _ ih =>
        have hover : ¬(chan.receiveTicks false n).ringdebTick.RingOver false := by
          intro hover
          have hne := hover.2.2.1
          rw [ringdebTick_ringtrailer] at hne
          exact hne ih.1
        rw [h.receiveTick_ringtrailer, if_pos ih.1, ringEnds_succ, if_neg hover]
        exact ⟨rfl, ih.2⟩
  exact hidle.2

theorem AfterRing.reportsRing_iff (arm : Bool)
    (hdeb : (chan.receiveTicks arm (ringTick arm)).ringdebtimer = 0) :
    chan.ReportsRing arm ↔ arm = false := by
  have hcount := count_ringoffhook arm h.fxs
  constructor
  · intro hreports
    by_contra harm
    have hone := hreports (ringTick arm) le_rfl
    rw [hcount, h.ringEnds_of_le arm hdeb le_rfl, if_neg fun hlast => harm hlast.2] at hone
    omega
  · rintro rfl n hn
    rw [hcount, h.ringEnds_of_ge hn, h.ringEnds_of_le false hdeb le_rfl, if_pos ⟨rfl, rfl⟩]

end Trailer

theorem receiveTick_ring (arm : Bool) (hfxs : chan.sig.isFxs) (hring : chan.rxhooksig = .ring) :
    (chan.receiveTick arm).ringtrailer = asRingtrailer := by
  rw [(receiveTick_received arm chan).ringtrailer, trailerTick_eq]
  simp [hfxs, hring]

/-- The report that ends a ring leaves that time, unless the line went dead. -/
theorem hooksigPvt_trailer {rxsig : RxSig} (hfxs : chan.sig.isFxs)
    (hrx : chan.rxhooksig ≠ rxsig) :
    (chan.hooksigPvt rxsig).sig = chan.sig ∧ (chan.hooksigPvt rxsig).rxhooksig = rxsig ∧
      ((chan.hooksigPvt rxsig).ringtrailer = chan.ringtrailer ∨
        (chan.hooksigPvt rxsig).ringdebtimer = asRingDebounceTime) := by
  have hsigs : chan.sig = .fxsls ∨ chan.sig = .fxsgs ∨ chan.sig = .fxsks := by
    cases hsig : chan.sig <;> simp_all [Sig.isFxs]
  rw [hooksigPvt, if_neg hrx]
  rcases hsigs with hsig | hsig | hsig
  · simp [hsig]
  · simp only [hsig, hooksigFxsgs]
    split_ifs <;> simp [qevent]
  · simp only [hsig, hooksigFxsgs]
    split_ifs <;> simp [qevent]

theorem ringdebtimer_of_dead (arm : Bool) (hdead : chan.ringdebtimer = asRingDebounceTime) :
    (chan.receiveTicks arm (ringTick arm)).ringdebtimer ≠ 0 := by
  have hlength : Countdown.length 1 asRingDebounceTime = 2000 := by decide
  have hcount : ∀ n ≤ 50,
      (chan.receiveTicks arm n).ringdebtimer = Countdown.after 1 n asRingDebounceTime := by
    intro n hn
    induction n with
    | zero => exact hdead.trans (Countdown.after_zero _ _).symm
    | succ n ih =>
        have hprev := ih (Nat.le_of_succ_le hn)
        have hne : Countdown.after 1 n asRingDebounceTime ≠ 0 :=
          Countdown.after_ne_zero Nat.one_pos (by omega) (by decide)
        rw [receiveTicks_succ, (receiveTick_received _ _).ringdebtimer, ringdebTick_eq]
        simp only [hprev, if_neg hne, Countdown.after_succ]
        rfl
  cases arm with
  | false =>
      rw [hcount _ (by decide)]
      decide
  | true =>
      rw [hcount _ (by decide)]
      decide

theorem afterRing_of_report {rxsig : RxSig} (arm : Bool) (hfxs : chan.sig.isFxs)
    (hring : chan.rxhooksig = .ring) (hquiet : rxsig ≠ .ring)
    (hdeb : (((chan.receiveTick arm).hooksigPvt rxsig).receiveTicks arm
      (ringTick arm)).ringdebtimer = 0) :
    AfterRing ((chan.receiveTick arm).hooksigPvt rxsig) := by
  have hreceived := receiveTick_received arm chan
  have hfxs' : (chan.receiveTick arm).sig.isFxs := by rwa [hreceived.sig]
  have hrx : (chan.receiveTick arm).rxhooksig ≠ rxsig := by
    rw [hreceived.rxhooksig, hring]
    exact hquiet.symm
  obtain ⟨hsig, hrxsig, htrailer⟩ := hooksigPvt_trailer hfxs' hrx
  refine ⟨by rwa [hsig], by rwa [hrxsig], ?_⟩
  rcases htrailer with htrailer | hdead
  · exact htrailer.trans (receiveTick_ring arm hfxs hring)
  · exact absurd hdeb (ringdebtimer_of_dead arm hdead)

end LineChan

/-- The timer of winks and flashes fires once exactly if it is a positive multiple of the
chunk. The end of a ring is reported once exactly off the ARM board. -/
theorem line_timers_fire_once_iff (arm : Bool) (chan : LineChan) :
    (chan.FiresOnce arm ↔ 0 < chan.itimer.toInt ∧ (asChunksize arm : ℤ) ∣ chan.itimer.toInt) ∧
      ∀ rxsig, chan.sig.isFxs → chan.rxhooksig = .ring → rxsig ≠ .ring →
        (((chan.receiveTick arm).hooksigPvt rxsig).receiveTicks arm
          (LineChan.ringTick arm)).ringdebtimer = 0 →
        (((chan.receiveTick arm).hooksigPvt rxsig).ReportsRing arm ↔ arm = false) := by
  refine ⟨LineChan.firesOnce_iff arm chan, ?_⟩
  intro rxsig hfxs hring hquiet hdeb
  exact (LineChan.afterRing_of_report arm hfxs hring hquiet hdeb).reportsRing_iff arm hdeb

/-- A line of the PCI board whose ring ends while its timer has two chunks left. -/
def ringingLine : LineChan :=
  { createChannel .fxsls (fun _ => 0) 0 with rxhooksig := .ring, itimer := 16 }

theorem line_timers_fire_once_ring : ringingLine.FiresOnce false ∧
    ((ringingLine.receiveTick false).hooksigPvt .offhook).ReportsRing false := by
  obtain ⟨hfires, hreports⟩ := line_timers_fire_once_iff false ringingLine
  refine ⟨hfires.mpr (by decide), (hreports .offhook rfl rfl (by decide) ?_).mpr rfl⟩
  decide +kernel

/-- On the ARM board a timer of one millisecond acts at every tick, and no ring ends. -/
theorem line_timers_arm :
    ({ createChannel .fxoks (fun _ => 0) 1 with itimer := 8 }.expiries true 3 = [1, 2, 3]) ∧
      ((({ createChannel .fxsls (fun _ => 0) 0 with rxhooksig := .ring }.receiveTick
        true).hooksigPvt .offhook).receiveTicks true 40).events = [] := by
  decide +kernel

end Slic
end WirelessMesh
