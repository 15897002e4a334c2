import WirelessMesh.Aodv.KernelTimer
import WirelessMesh.Lib.Lists

/-!
# Timers that are due

The handler of the kernel timer moves the tasks that are due from the timer queue to the task
queue. It looks for the first one that is due, moves it, and begins again at the head of the
queue. At the end the kernel timer is set for what is left.
-/

namespace WirelessMesh
namespace Aodv

open Routes SerialOrder
open Maodv (Env RouteTask)

def timerFirstDue (currtime : U32) (timers : List RouteTask) : Option RouteTask :=
  timers.find? fun task => timeBeforeEq task.time currtime

/-- `AODV_LIST_DEL` of the task that `__aodv_timer_first_due` has found. -/
def timerUnlink (currtime : U32) (timers : List RouteTask) : List RouteTask :=
  timers.eraseP fun task => timeBeforeEq task.time currtime

def taskEnqueue (task : RouteTask) (a : State) : State := { a with tasks := a.tasks ++ [task] }

def taskInsertFromTimer (task : Option RouteTask) (a : State) : ℤ × State :=
  match task with
  | none => (enomem, a)
  | some task => (0, taskEnqueue task a)

/-- The loop of `__aodv_timer_queue_signal`. `none` is a loop that has not come to its end. -/
def signalLoop (currtime : U32) : ℕ → State → Option State
  | 0, _ => none
  | fuel + 1, a =>
      match timerFirstDue currtime a.timers with
      | none => some a
      | some task =>
          let a := { a with timers := timerUnlink currtime a.timers }
          signalLoop currtime fuel (taskInsertFromTimer (some task) a).2

/-- `__aodv_timer_queue_signal`, within a number of rounds. The clock is read at the start and
again by `aodv_timer_update`, which takes `stray`, what lies around the list head, for the first
task of an empty queue. -/
def queueSignal (fuel : ℕ) (jiffies epoch : U32) (clock clock' : Timeval) (stray : RouteTask)
    (a : State) (timer : TimerList) : Option (State × TimerList) := do
  let a ← signalLoop (getcurrtime epoch clock) fuel a
  let first := if a.timers = [] then [stray] else a.timers
  let timer ← timerUpdate jiffies epoch clock' first timer
  return (a, timer)

/-! ## The loop -/

/-- The loop ends after as many rounds as there are tasks due, and one more, with what the step
of the module's threads says. -/
theorem signalLoop_eq_timerQueueSignal (env : Env) (a : State) {fuel : ℕ}
    (hfuel : (a.timers.filter fun task => timeBeforeEq task.time env.now).length < fuel) :
    signalLoop env.now fuel a = some (timerQueueSignal env a) := by
  induction fuel generalizing a with
  | zero => exact absurd hfuel (Nat.not_lt_zero _)
  | succ fuel ih =>
      cases hfirst : timerFirstDue env.now a.timers with
      | none =>
          have hnone := List.find?_eq_none.mp hfirst
          have hdue : a.timers.filter (fun task => timeBeforeEq task.time env.now) = [] :=
            List.filter_eq_nil_iff.mpr hnone
          have hrest : a.timers.filter (fun task => !timeBeforeEq task.time env.now) = a.timers :=
            List.filter_eq_self.mpr fun task htask => by simp [hnone task htask]
          simp only [signalLoop, hfirst, timerQueueSignal, hdue, hrest, List.append_nil]
      | some task =>
          -- One task fewer is due, and the rounds that are left suffice.
          have hdue := Lists.filter_eq_cons_of_find? hfirst
          rw [hdue, List.length_cons] at hfuel
          have hround := ih (taskEnqueue task
            { a with timers := timerUnlink env.now a.timers }) (Nat.lt_of_succ_lt_succ hfuel)
          simp only [signalLoop, hfirst, taskInsertFromTimer]
          rw [hround]
          simp only [timerQueueSignal, taskEnqueue, timerUnlink, Lists.filter_not_eraseP, hdue,
            List.append_assoc, List.singleton_append]

theorem timerUpdate_isSome (jiffies epoch : U32) (clock : Timeval) {timers : List RouteTask}
    (htimers : timers ≠ []) (timer : TimerList) :
    ∃ timer', timerUpdate jiffies epoch clock timers timer = some timer' := by
  obtain ⟨first, rest, rfl⟩ := List.exists_cons_of_ne_nil htimers
  simp only [timerUpdate]
  split_ifs
  · exact ⟨_, rfl⟩
  · exact ⟨_, rfl⟩

theorem queueSignal_eq (jiffies : U32) {epoch : U32} {clock : Timeval} (clock' : Timeval)
    (stray : RouteTask) (env : Env) (hnow : env.now = getcurrtime epoch clock) (a : State)
    (timer : TimerList) :
    ∃ timer', ∀ fuel,
      (a.timers.filter fun task => timeBeforeEq task.time env.now).length < fuel →
      queueSignal fuel jiffies epoch clock clock' stray a timer =
        some (timerQueueSignal env a, timer') := by
  have hfirst : (if (timerQueueSignal env a).timers = [] then [stray]
      else (timerQueueSignal env a).timers) ≠ [] := by
    split_ifs with hempty
    · simp
    · exact hempty
  obtain ⟨timer', hupdate⟩ := timerUpdate_isSome jiffies epoch clock' hfirst timer
  refine ⟨timer', ?_⟩
  intro fuel hfuel
  rw [queueSignal, ← hnow, signalLoop_eq_timerQueueSignal env a hfuel]
  simp only [Option.bind_eq_bind, Option.bind_some, hupdate, Option.pure_def]

/-! ## Times on the wrapping clock -/

theorem timeBeforeEq_ofInt {t now : ℤ} (hle : t - now ≤ 2 ^ 31) (hlt : now - t < 2 ^ 31) :
    timeBeforeEq (BitVec.ofInt 32 t) (BitVec.ofInt 32 now) = decide (t ≤ now) := by
  have hahead : ahead (BitVec.ofInt 32 now) (BitVec.ofInt 32 t) = now - t := by
    apply ahead_ofInt
    · omega
    · omega
  rw [timeBeforeEq, hahead]
  simp

/-- `__aodv_timer_queue_signal` returns. It has moved the tasks whose time has come to the tail
of the task queue, in the order in which they stood, and has left the others in theirs. The words
of the clock and of the tasks stand for times less than half the circle apart. -/
theorem due_timers_moved (jiffies : U32) {epoch : U32} {clock : Timeval} (clock' : Timeval)
    (stray : RouteTask) (a : State) (timer : TimerList) {now : ℤ} {due : RouteTask → ℤ}
    (hnow : getcurrtime epoch clock = BitVec.ofInt 32 now)
    (hdue : ∀ task ∈ a.timers, task.time = BitVec.ofInt 32 (due task) ∧
      due task - now ≤ 2 ^ 31 ∧ now - due task < 2 ^ 31) :
    ∃ timer', ∀ fuel, a.timers.length < fuel →
      queueSignal fuel jiffies epoch clock clock' stray a timer =
        some ({ a with
          timers := a.timers.filter fun task => now < due task
          tasks := a.tasks ++ a.timers.filter fun task => due task ≤ now }, timer') := by
  let env : Env := ⟨getcurrtime epoch clock, fun _ => true, ⟨0, 0, false, 0, 0⟩⟩
  obtain ⟨timer', hsignal⟩ := queueSignal_eq jiffies clock' stray env rfl a timer
  have hword : ∀ task ∈ a.timers,
      timeBeforeEq task.time env.now = decide (due task ≤ now) := by
    intro task htask
    obtain ⟨htime, hle, hlt⟩ := hdue task htask
    rw [htime, show env.now = BitVec.ofInt 32 now from hnow, timeBeforeEq_ofInt hle hlt]
  have hmoved : a.timers.filter (fun task => timeBeforeEq task.time env.now) =
      a.timers.filter fun task => due task ≤ now := List.filter_congr hword
  have hkept : a.timers.filter (fun task => !timeBeforeEq task.time env.now) =
      a.timers.filter fun task => now < due task := by
    apply List.filter_congr
    intro task htask
    rw [hword task htask, ← decide_not, decide_eq_decide, not_le]
  refine ⟨timer', ?_⟩
  intro fuel hfuel
  rw [hsignal fuel (lt_of_le_of_lt (List.length_filter_le _ _) hfuel), timerQueueSignal, hmoved,
    hkept]

def idleNode (timers : List RouteTask) : State where
  routes := .empty
  myRoute := 0
  neighs := .empty
  timers := timers
  floods := []
  tasks := []
  queue := ⟨[], 0, false, false⟩

/-- Shortly after the clock has wrapped, a timer from before is due and a later one is not. -/
theorem due_timer_moved_across_wrap :
    (∀ task ∈ (idleNode [taskAt taskHello 900, taskAt taskCleanup (-100)]).timers,
      task.time = BitVec.ofInt 32 task.time.toInt ∧
        task.time.toInt - 500 ≤ 2 ^ 31 ∧ 500 - task.time.toInt < 2 ^ 31) ∧
    ∃ timer', ∀ fuel, 2 < fuel →
      queueSignal fuel 0 0 ⟨0, 500000⟩ ⟨0, 500000⟩ (taskAt 0 0)
        (idleNode [taskAt taskHello 900, taskAt taskCleanup (-100)]) ⟨false, 0⟩ =
        some ({ idleNode [taskAt taskHello 900] with tasks := [taskAt taskCleanup (-100)] },
          timer') := by
  have hdue : ∀ task ∈ (idleNode [taskAt taskHello 900, taskAt taskCleanup (-100)]).timers,
      task.time = BitVec.ofInt 32 task.time.toInt ∧
        task.time.toInt - 500 ≤ 2 ^ 31 ∧ 500 - task.time.toInt < 2 ^ 31 := by decide
  exact ⟨hdue, due_timers_moved 0 ⟨0, 500000⟩ (taskAt 0 0) _ ⟨false, 0⟩ (by decide) hdue⟩

end Aodv
end WirelessMesh
