import WirelessMesh.Aodv.Task

/-!
# Arming the kernel timer

One kernel timer serves the whole timer queue of the aodv module. `aodv_timer_update` sets it
for the first task of the queue, which is the one inserted last and not the one due first. The
delay in seconds and microseconds is given the epoch as well, the second in which the module
was loaded, and is then converted to jiffies in machine words. A timer whose `expires` is not
ahead of `jiffies`, read as a signed difference, runs at the next jiffy.
-/

namespace WirelessMesh
namespace Aodv

open Routes SerialOrder
open Maodv (RouteTask)

structure Timeval where
  tvSec : U32
  tvUsec : U32
  deriving DecidableEq, Repr

structure TimerList where
  pending : Bool
  expires : U32
  deriving DecidableEq, Repr

def ulongMax : U32 := BitVec.allOnes 32

def tvtojiffies (value : Timeval) : U32 :=
  if value.tvSec > ulongMax / hz then ulongMax
  else hz * value.tvSec + (value.tvUsec + (1000000 / hz - 1)) / (1000000 / hz)

def getcurrtime (epoch : U32) (clock : Timeval) : U32 :=
  (clock.tvSec - epoch) * 1000 + clock.tvUsec / 1000

/-- The delay of `aodv_timer_update`. -/
def delayTime (epoch currtime : U32) (first : RouteTask) : Timeval :=
  if timeBefore first.time currtime then ⟨0, 1⟩
  else
    let numerator := first.time - currtime
    ⟨numerator / 1000 + epoch, numerator % 1000 * 1000⟩

/-- `aodv_timer_update`. In an empty queue `__aodv_timer_find_first` returns the list head as if
it were a task; what is read there has no meaning here. -/
def timerUpdate (jiffies epoch : U32) (clock : Timeval) (timers : List RouteTask)
    (timer : TimerList) : Option TimerList :=
  match timers with
  | [] => none
  | first :: _ =>
      let delay := delayTime epoch (getcurrtime epoch clock) first
      if !timer.pending then
        -- add_timer
        some { pending := true, expires := jiffies + tvtojiffies delay }
      else
        -- mod_timer
        some { timer with expires := jiffies + tvtojiffies delay }

/-! ## What is asked for -/

/-- Milliseconds in jiffies, rounded up. Nothing runs before the next jiffy. -/
def jiffiesUp (ms : ℤ) : ℤ := max 1 ((ms + 9) / 10)

def ArmedInTime (jiffies currtime : U32) (timers : List RouteTask) (timer : TimerList) : Prop :=
  ∀ task ∈ timers, ahead timer.expires jiffies ≤ jiffiesUp (ahead task.time currtime)

instance (jiffies currtime : U32) (timers : List RouteTask) (timer : TimerList) :
    Decidable (ArmedInTime jiffies currtime timers timer) :=
  inferInstanceAs (Decidable (∀ task ∈ timers, _ ≤ _))

/-- The jiffies to the time of a task and as many seconds more as the epoch has. -/
def jiffiesToEpoch (epoch currtime : U32) (task : RouteTask) : ℤ :=
  100 * epoch.toInt + (ahead task.time currtime + 9) / 10

/-- The first task is overdue, or its time with the epoch is no later than any task is due, or
so late that the timer is set in the past. In the last second before the conversion gives up, the
sum of seconds and fraction can pass the end of the word. -/
def HeadInTime (epoch currtime : U32) (first : RouteTask) (timers : List RouteTask) : Prop :=
  ahead first.time currtime < 0 ∨
  (∀ task ∈ timers, jiffiesToEpoch epoch currtime first ≤ jiffiesUp (ahead task.time currtime)) ∨
  (2 ^ 31 ≤ jiffiesToEpoch epoch currtime first ∧
    (ahead first.time currtime / 1000 + epoch.toInt = 42949672 → ∀ task ∈ timers,
      jiffiesToEpoch epoch currtime first ≤ 2 ^ 32 + jiffiesUp (ahead task.time currtime)))

/-! ## The conversion -/

theorem toNat_tvtojiffies {value : Timeval} (h : value.tvUsec.toNat < 1000000) :
    (tvtojiffies value).toNat = if 42949672 < value.tvSec.toNat then 2 ^ 32 - 1
      else (100 * value.tvSec.toNat + (value.tvUsec.toNat + 9999) / 10000) % 2 ^ 32 := by
  have hgt : value.tvSec > ulongMax / hz ↔ 42949672 < value.tvSec.toNat := BitVec.lt_def
  have hround : (value.tvUsec + (1000000 / hz - 1)) / (1000000 / hz) =
      (value.tvUsec + 9999#32) / 10000#32 := rfl
  unfold tvtojiffies
  by_cases hsec : 42949672 < value.tvSec.toNat
  · rw [if_pos (hgt.mpr hsec), if_pos hsec]
    rfl
  · have hhz : hz.toNat = 100 := rfl
    rw [if_neg (mt hgt.mp hsec), if_neg hsec, hround]
    simp only [BitVec.toNat_add, BitVec.toNat_mul, BitVec.toNat_udiv, BitVec.toNat_ofNat, hhz,
      Nat.reducePow, Nat.reduceMod]
    omega

theorem toNat_sub_of_ahead {a b : U32} (h : 0 ≤ ahead a b) :
    ((a - b).toNat : ℤ) = ahead a b ∧ (a - b).toNat < 2 ^ 31 := by
  have hcond := BitVec.toInt_eq_toNat_cond (a - b)
  have hlt := (a - b).isLt
  change ahead a b = _ at hcond
  split_ifs at hcond
  · exact ⟨hcond.symm, by omega⟩
  · omega

theorem toNat_delay (epoch : U32) {currtime : U32} {first : RouteTask}
    (hahead : 0 ≤ ahead first.time currtime) {ms secs : ℕ}
    (hms : ms = (first.time - currtime).toNat) (hsecs : secs = (ms / 1000 + epoch.toNat) % 2 ^ 32) :
    (tvtojiffies (delayTime epoch currtime first)).toNat =
      if 42949672 < secs then 2 ^ 32 - 1
      else (100 * secs + (ms % 1000 * 1000 + 9999) / 10000) % 2 ^ 32 := by
  have hdelay : delayTime epoch currtime first =
      ⟨(first.time - currtime) / 1000 + epoch, (first.time - currtime) % 1000 * 1000⟩ := by
    rw [delayTime, if_neg (by simp [timeBefore, hahead])]
  have hthousand : (1000 : U32).toNat = 1000 := rfl
  have husec : ((first.time - currtime) % 1000 * 1000).toNat = ms % 1000 * 1000 := by
    simp only [BitVec.toNat_mul, BitVec.toNat_umod, hthousand, ← hms]
    omega
  have hsec : ((first.time - currtime) / 1000 + epoch).toNat = secs := by
    rw [BitVec.toNat_add, BitVec.toNat_udiv, hthousand, ← hms, hsecs]
  have hfraction : ((first.time - currtime) % 1000 * 1000).toNat < 1000000 := by
    rw [husec]
    omega
  rw [hdelay, toNat_tvtojiffies hfraction, hsec, husec]

/-- The jiffies until the timer expires, for such a task: what was asked for, unless the
conversion gives up or the word is full. -/
theorem toInt_delay {epoch currtime : U32} {first : RouteTask}
    (hahead : 0 ≤ ahead first.time currtime) :
    (tvtojiffies (delayTime epoch currtime first)).toInt =
      if ahead first.time currtime / 1000 + epoch.toInt < 0 ∨
          42949672 < ahead first.time currtime / 1000 + epoch.toInt then -1
      else if jiffiesToEpoch epoch currtime first < 2 ^ 31 then jiffiesToEpoch epoch currtime first
      else jiffiesToEpoch epoch currtime first - 2 ^ 32 := by
  obtain ⟨hword, hsmall⟩ := toNat_sub_of_ahead hahead
  have hdelay := toNat_delay epoch hahead rfl rfl
  have hepoch := BitVec.toInt_eq_toNat_cond epoch
  have hepochlt := epoch.isLt
  rw [BitVec.toInt_eq_toNat_cond, jiffiesToEpoch, ← hword]
  generalize (first.time - currtime).toNat = ms at hdelay hsmall
  split_ifs at hdelay hepoch ⊢ <;> omega

/-! ## The timer -/

theorem one_le_jiffiesUp (ms : ℤ) : 1 ≤ jiffiesUp ms := le_max_left _ _

theorem ahead_expires (jiffies delay : U32) : ahead (jiffies + delay) jiffies = delay.toInt := by
  rw [ahead, BitVec.add_comm, BitVec.add_sub_cancel]

theorem delay_in_time_iff (epoch currtime : U32) (first : RouteTask) (timers : List RouteTask) :
    (∀ task ∈ timers, (tvtojiffies (delayTime epoch currtime first)).toInt ≤
      jiffiesUp (ahead task.time currtime)) ↔ HeadInTime epoch currtime first timers := by
  by_cases hahead : ahead first.time currtime < 0
  · -- The microsecond of an overdue task is one jiffy.
    have hone : (tvtojiffies (delayTime epoch currtime first)).toInt = 1 := by
      rw [delayTime, if_pos (by simp [timeBefore, hahead])]
      rfl
    refine iff_of_true (fun task _ => ?_) (.inl hahead)
    rw [hone]
    exact one_le_jiffiesUp _
  · rw [toInt_delay (not_lt.mp hahead), HeadInTime]
    have hasked : jiffiesToEpoch epoch currtime first =
        100 * epoch.toInt + (ahead first.time currtime + 9) / 10 := rfl
    constructor
    · intro h
      refine .inr ?_
      split_ifs at h with hgives hfits
      · -- The conversion gave up: too early or too late by whole seconds.
        rcases hgives with hneg | hlate
        · refine .inl fun task _ => ?_
          have hpos := one_le_jiffiesUp (ahead task.time currtime)
          omega
        · exact .inr ⟨by omega, fun heq => absurd heq (by omega)⟩
      · exact .inl h
      · refine .inr ⟨not_lt.mp hfits, fun _ task htask => ?_⟩
        have hbound := h task htask
        omega
    · intro h task htask
      have hpos := one_le_jiffiesUp (ahead task.time currtime)
      rcases h with hneg | hall | ⟨hlate, hedge⟩
      · exact absurd hneg hahead
      · have hbound := hall task htask
        split_ifs <;> omega
      · split_ifs with hgives hfits
        · omega
        · omega
        · by_cases hlast : ahead first.time currtime / 1000 + epoch.toInt = 42949672
          · have hbound := hedge hlast task htask
            omega
          · omega

/-- After an update of a queue that is not empty the kernel timer is pending, and it expires in
time exactly under this condition on the first task. -/
theorem armed_in_time_iff (jiffies epoch : U32) (clock : Timeval) (first : RouteTask)
    (rest : List RouteTask) (timer : TimerList) :
    ∃ timer', timerUpdate jiffies epoch clock (first :: rest) timer = some timer' ∧
      timer'.pending = true ∧
      (ArmedInTime jiffies (getcurrtime epoch clock) (first :: rest) timer' ↔
        HeadInTime epoch (getcurrtime epoch clock) first (first :: rest)) := by
  let delay := tvtojiffies (delayTime epoch (getcurrtime epoch clock) first)
  have hupdate : timerUpdate jiffies epoch clock (first :: rest) timer =
      some ⟨true, jiffies + delay⟩ := by
    obtain ⟨pending, expires⟩ := timer
    cases pending with
    | false => rfl
    | true => rfl
  refine ⟨⟨true, jiffies + delay⟩, hupdate, rfl, ?_⟩
  rw [ArmedInTime, ahead_expires]
  exact delay_in_time_iff epoch (getcurrtime epoch clock) first (first :: rest)

def taskAt (type time : U32) : RouteTask := ⟨type, 0, time, 0, 0, none, 0, 0, .none⟩

/-- A board whose clock starts in 1970 loads the module in second 30. Two seconds later a task is
due in a second, and the kernel timer is set for 31 seconds from now. -/
theorem timer_late_by_epoch : ∃ timer,
    timerUpdate 3200 30 ⟨32, 0⟩ [taskAt taskHello 3000] ⟨false, 0⟩ = some timer ∧
      timer.expires = 3200 + 3100 ∧
      ¬ArmedInTime 3200 (getcurrtime 30 ⟨32, 0⟩) [taskAt taskHello 3000] timer :=
  ⟨⟨true, 6300⟩, by decide, by decide, by decide⟩

end Aodv
end WirelessMesh
