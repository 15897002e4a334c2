import WirelessMesh.Kernel
import WirelessMesh.Lib.CircularQueue
import WirelessMesh.Lib.Runs
import Mathlib.Data.List.Infix

/-!
# The event queue of a telephone channel

The interrupt handlers queue events for the process that has the channel open, in a ring of
`AS_MAX_EVENTSIZE` words. The queue is compared with the log of its calls: what it accepted,
what it handed out, and how many events were pending when it dropped one or found none.
-/

namespace WirelessMesh
namespace Slic

abbrev Event := BitVec 32

def asMaxEventsize : ℕ := 64
def asEventNone : Event := 0

/-- The event fields of `struct as_dev_chan`. -/
structure EventQueue where
  eventbuf : ℕ → Event
  eventinidx : ℕ
  eventoutidx : ℕ
  in_lt : eventinidx < asMaxEventsize
  out_lt : eventoutidx < asMaxEventsize

theorem asMaxEventsize_pos : 0 < asMaxEventsize := by decide

def nextEventidx (idx : ℕ) : ℕ :=
  if asMaxEventsize ≤ idx + 1 then 0 else idx + 1

theorem nextEventidx_eq {idx : ℕ} (h : idx < asMaxEventsize) :
    nextEventidx idx = (idx + 1) % asMaxEventsize := by
  unfold nextEventidx
  unfold asMaxEventsize at *
  split_ifs <;> omega

theorem nextEventidx_lt (idx : ℕ) : nextEventidx idx < asMaxEventsize := by
  unfold nextEventidx asMaxEventsize
  split_ifs <;> omega

theorem nextEventidx_ne (idx : ℕ) (h : idx < asMaxEventsize) : nextEventidx idx ≠ idx := by
  unfold nextEventidx
  unfold asMaxEventsize at *
  split_ifs <;> omega

def EventQueue.full (chan : EventQueue) : Prop :=
  (chan.eventoutidx = 0 ∧ chan.eventinidx = asMaxEventsize - 1) ∨
    (chan.eventoutidx : ℤ) = (chan.eventinidx : ℤ) - 1

instance (chan : EventQueue) : Decidable chan.full := inferInstanceAs (Decidable (_ ∨ _))

def channelQevent (chan : EventQueue) (event : Event) : EventQueue :=
  if chan.full then chan
  else
    { chan with
      eventbuf := Function.update chan.eventbuf chan.eventinidx event
      eventinidx := nextEventidx chan.eventinidx
      in_lt := nextEventidx_lt _ }

/-- `as_channel_deqevent_lock`. -/
def channelDeqevent (chan : EventQueue) : Event × EventQueue :=
  if chan.eventinidx ≠ chan.eventoutidx then
    (chan.eventbuf chan.eventoutidx,
      { chan with eventoutidx := nextEventidx chan.eventoutidx, out_lt := nextEventidx_lt _ })
  else (asEventNone, chan)

/-! ## The log of the calls -/

inductive EventCall
  | qevent (event : Event)
  | deqevent

structure EventLog where
  queue : EventQueue
  accepted : List Event
  returned : List Event
  /-- The number of pending events at each call that dropped its event. -/
  drops : List ℕ
  /-- The number of pending events at each answer `AS_EVENT_NONE`. -/
  nones : List ℕ

namespace EventLog

def pending (log : EventLog) : List Event := log.accepted.drop log.returned.length

def start (queue : EventQueue) : EventLog := ⟨queue, [], [], [], []⟩

def qevent (log : EventLog) (event : Event) : EventLog :=
  let queue := channelQevent log.queue event
  -- an event was saved when the write index moved
  if queue.eventinidx ≠ log.queue.eventinidx then
    { log with queue, accepted := log.accepted ++ [event] }
  else { log with queue, drops := log.drops ++ [log.pending.length] }

def deqevent (log : EventLog) : EventLog :=
  let (event, queue) := channelDeqevent log.queue
  if event = asEventNone then { log with queue, nones := log.nones ++ [log.pending.length] }
  else { log with queue, returned := log.returned ++ [event] }

def step : EventCall → EventLog → Option EventLog
  | .qevent event, log => some (log.qevent event)
  | .deqevent, log => some log.deqevent

/-- The history of a FIFO that holds up to `AS_MAX_EVENTSIZE - 1` events. -/
structure BoundedFifo (log : EventLog) : Prop where
  inOrder : log.returned <+: log.accepted
  drops_full : ∀ n ∈ log.drops, n = asMaxEventsize - 1
  nones_empty : ∀ n ∈ log.nones, n = 0

/-- The log is that of a FIFO, and stays so however often an event is taken. -/
def Serves (log : EventLog) : Prop := ∀ k, BoundedFifo (deqevent^[k] log)

/-- What a call must find: the tests for a full queue answer by the number of pending events,
and an event that is taken in can be told from `AS_EVENT_NONE`. -/
def Fits : EventCall → EventLog → Prop
  | .qevent event, log =>
      (log.pending.length = 1 → log.queue.eventinidx = 0) ∧
      (log.pending.length = asMaxEventsize - 1 → log.queue.eventoutidx = 0) ∧
      (log.pending.length < asMaxEventsize - 1 → event ≠ asEventNone)
  | .deqevent, _ => True

/-! ## The ring behind the log -/

def Holds (log : EventLog) : Prop :=
  Circular asMaxEventsize log.queue.eventbuf log.queue.eventinidx log.queue.eventoutidx log.pending

variable {log : EventLog} {event : Event}

theorem Holds.full_iff (h : log.Holds) :
    log.queue.full ↔
      (log.pending.length = 1 ∧ log.queue.eventinidx ≠ 0) ∨
        (log.pending.length = asMaxEventsize - 1 ∧ log.queue.eventoutidx = 0) := by
  have hcases := h.stop_cases
  have hfits := h.fits
  have hin := log.queue.in_lt
  have hout := log.queue.out_lt
  unfold EventQueue.full
  unfold asMaxEventsize at *
  omega

theorem qevent_full (h : log.queue.full) (event : Event) :
    log.qevent event = { log with drops := log.drops ++ [log.pending.length] } := by
  simp [qevent, channelQevent, h]

theorem qevent_room (h : ¬log.queue.full) (event : Event) :
    log.qevent event =
      { log with
        queue := channelQevent log.queue event
        accepted := log.accepted ++ [event] } := by
  have hmoved := nextEventidx_ne log.queue.eventinidx log.queue.in_lt
  simp [qevent, channelQevent, h, hmoved]

theorem pending_qevent_room (h : ¬log.queue.full) (horder : log.returned <+: log.accepted) :
    (log.qevent event).pending = log.pending ++ [event] := by
  rw [qevent_room h]
  exact List.drop_append_of_le_length horder.length_le

theorem Holds.qevent_room (h : log.Holds) (event : Event)
    (horder : log.returned <+: log.accepted) (hfull : ¬log.queue.full)
    (hroom : log.pending.length + 1 < asMaxEventsize) :
    (log.qevent event).Holds := by
  have hpush := h.push hroom event
  unfold Holds
  rw [pending_qevent_room hfull horder, EventLog.qevent_room hfull]
  simpa [channelQevent, hfull, nextEventidx_eq log.queue.in_lt] using hpush

theorem deqevent_empty (h : log.queue.eventinidx = log.queue.eventoutidx) :
    log.deqevent = { log with nones := log.nones ++ [log.pending.length] } := by
  simp [deqevent, channelDeqevent, h]

theorem BoundedFifo.accepted_eq (h : log.BoundedFifo) :
    log.returned ++ log.pending = log.accepted :=
  List.prefix_iff_eq_append.mp h.inOrder

theorem Holds.channelDeqevent_cons (h : log.Holds) {rest : List Event}
    (hpending : log.pending = event :: rest) :
    channelDeqevent log.queue = (event,
      { log.queue with
        eventoutidx := nextEventidx log.queue.eventoutidx, out_lt := nextEventidx_lt _ }) := by
  unfold Holds at h
  rw [hpending] at h
  have hne : log.queue.eventinidx ≠ log.queue.eventoutidx := by
    intro heq
    exact absurd (h.stop_eq_start_iff.mp heq) (List.cons_ne_nil _ _)
  simp [channelDeqevent, hne, h.head]

theorem Holds.deqevent_cons (h : log.Holds) {rest : List Event}
    (hpending : log.pending = event :: rest) (hevent : event ≠ asEventNone) :
    log.deqevent = { log with
      queue := (channelDeqevent log.queue).2, returned := log.returned ++ [event] } := by
  simp [deqevent, h.channelDeqevent_cons hpending, hevent]

theorem Holds.pending_deqevent (h : log.Holds) {rest : List Event}
    (hpending : log.pending = event :: rest) (hevent : event ≠ asEventNone) :
    log.deqevent.pending = rest := by
  have hdrop : log.accepted.drop (log.returned.length + 1) = log.pending.drop 1 :=
    List.drop_drop.symm
  rw [hpending] at hdrop
  rw [h.deqevent_cons hpending hevent, pending, List.length_append]
  exact hdrop

theorem Holds.holds_deqevent (h : log.Holds) {rest : List Event}
    (hpending : log.pending = event :: rest) (hevent : event ≠ asEventNone) :
    log.deqevent.Holds := by
  have hpop := h
  unfold Holds at hpop ⊢
  rw [h.pending_deqevent hpending hevent, h.deqevent_cons hpending hevent,
    h.channelDeqevent_cons hpending]
  rw [hpending] at hpop
  simpa [nextEventidx_eq log.queue.out_lt] using hpop.pop

/-! ## Which logs serve -/

/-- The ring and the history agree, and no pending event reads as `AS_EVENT_NONE`. -/
structure Sound (log : EventLog) : Prop where
  holds : log.Holds
  fifo : log.BoundedFifo
  real : asEventNone ∉ log.pending

theorem Sound.deqevent (h : log.Sound) : log.deqevent.Sound := by
  cases hpending : log.pending with
  | nil =>
      rw [deqevent_empty (h.holds.stop_eq_start_iff.mpr hpending), hpending]
      refine ⟨h.holds, { h.fifo with nones_empty := ?_ }, h.real⟩
      intro n hn
      rcases List.mem_append.mp hn with hn | hn
      · exact h.fifo.nones_empty n hn
      · exact List.mem_singleton.mp hn
  | cons event rest =>
      have hreal := h.real
      rw [hpending] at hreal
      have hevent : event ≠ asEventNone := (List.ne_of_not_mem_cons hreal).symm
      refine ⟨h.holds.holds_deqevent hpending hevent, ?_, ?_⟩
      · have haccepted := h.fifo.accepted_eq
        rw [hpending] at haccepted
        rw [h.holds.deqevent_cons hpending hevent]
        exact { h.fifo with inOrder := ⟨rest, by simpa using haccepted⟩ }
      · rw [h.holds.pending_deqevent hpending hevent]
        exact List.not_mem_of_not_mem_cons hreal

theorem Sound.serves (h : log.Sound) : log.Serves := by
  intro k
  induction k generalizing log with
  | zero => exact h.fifo
  | succ k ih => exact ih h.deqevent

theorem Serves.fifo (h : log.Serves) : log.BoundedFifo := h 0

theorem Serves.deqevent (h : log.Serves) : log.deqevent.Serves := by
  intro k
  exact h (k + 1)

theorem not_serves_of_nones {queue : EventQueue}
    (hdeq : log.deqevent = { log with queue, nones := log.nones ++ [log.pending.length] })
    (hpending : log.pending ≠ []) : ¬log.Serves := by
  intro h
  have hfifo := h.deqevent.fifo
  rw [hdeq] at hfifo
  have hzero := hfifo.nones_empty log.pending.length (by simp)
  exact hpending (List.length_eq_zero_iff.mp hzero)

/-- A pending `AS_EVENT_NONE` comes to the front, and is then taken for no event. -/
theorem Serves.real (h : log.Serves) (hholds : log.Holds) : asEventNone ∉ log.pending := by
  induction hlist : log.pending generalizing log with
  | nil => simp
  | cons event rest ih =>
      by_cases hevent : event = asEventNone
      · have hdeq : log.deqevent = { log with
            queue := (channelDeqevent log.queue).2
            nones := log.nones ++ [log.pending.length] } := by
          simp [EventLog.deqevent, hholds.channelDeqevent_cons hlist, hevent]
        exact absurd h (not_serves_of_nones hdeq (by simp [hlist]))
      · have hrest : asEventNone ∉ rest :=
          ih h.deqevent (hholds.holds_deqevent hlist hevent) (hholds.pending_deqevent hlist hevent)
        exact List.not_mem_cons_of_ne_of_not_mem (Ne.symm hevent) hrest

theorem Holds.serves_iff (h : log.Holds) :
    log.Serves ↔ log.BoundedFifo ∧ asEventNone ∉ log.pending := by
  constructor
  · intro hserves
    exact ⟨hserves.fifo, hserves.real h⟩
  · rintro ⟨hfifo, hreal⟩
    exact Sound.serves ⟨h, hfifo, hreal⟩

/-! ## One call -/

theorem serves_qevent_full (event : Event) (h : log.Serves) (hholds : log.Holds)
    (hfull : log.queue.full) :
    (log.qevent event).Serves ↔ Fits (.qevent event) log := by
  have hcases := hholds.full_iff.mp hfull
  have hdrop : (log.qevent event).BoundedFifo ↔ log.pending.length = asMaxEventsize - 1 := by
    rw [qevent_full hfull]
    constructor
    · intro hfifo
      exact hfifo.drops_full _ (by simp)
    · intro hlength
      refine { h.fifo with drops_full := ?_ }
      intro n hn
      rcases List.mem_append.mp hn with hn | hn
      · exact h.fifo.drops_full n hn
      · exact (List.mem_singleton.mp hn).trans hlength
  have hholds' : (log.qevent event).Holds := by
    rw [qevent_full hfull]
    exact hholds
  have hreal : asEventNone ∉ (log.qevent event).pending := by
    rw [qevent_full hfull]
    exact h.real hholds
  rw [hholds'.serves_iff, hdrop]
  simp only [Fits, hreal, not_false_eq_true, and_true]
  unfold asMaxEventsize at *
  omega

theorem not_serves_qevent_last (event : Event) (h : log.BoundedFifo) (hholds : log.Holds)
    (hfull : ¬log.queue.full) (hlength : log.pending.length + 1 = asMaxEventsize) :
    ¬(log.qevent event).Serves := by
  have hmeet : (log.qevent event).queue.eventinidx = (log.qevent event).queue.eventoutidx := by
    have hlast := hholds.push_last hlength
    rw [qevent_room hfull]
    simpa [channelQevent, hfull, nextEventidx_eq log.queue.in_lt] using hlast
  apply not_serves_of_nones (deqevent_empty hmeet)
  rw [pending_qevent_room hfull h.inOrder]
  simp

theorem serves_qevent_room (event : Event) (h : log.Serves) (hholds : log.Holds)
    (hfull : ¬log.queue.full) :
    ((log.qevent event).Serves ↔ Fits (.qevent event) log) ∧
      ((log.qevent event).Serves → (log.qevent event).Holds) := by
  have hcases := mt hholds.full_iff.mpr hfull
  have hfits := hholds.fits
  by_cases hlast : log.pending.length + 1 = asMaxEventsize
  · have hnot := not_serves_qevent_last event h.fifo hholds hfull hlast
    refine ⟨iff_of_false hnot ?_, fun hserves => absurd hserves hnot⟩
    rintro ⟨-, hout, -⟩
    exact hcases (.inr ⟨by omega, hout (by omega)⟩)
  · have hholds' := hholds.qevent_room event h.fifo.inOrder hfull (by omega)
    refine ⟨?_, fun _ => hholds'⟩
    have hfifo : (log.qevent event).BoundedFifo := by
      rw [qevent_room hfull]
      exact { h.fifo with inOrder := h.fifo.inOrder.trans (List.prefix_append _ _) }
    rw [hholds'.serves_iff, pending_qevent_room hfull h.fifo.inOrder]
    have hreal := h.real hholds
    simp only [hfifo, true_and, List.mem_append, hreal, false_or, List.mem_singleton, Fits]
    constructor
    · intro hevent
      refine ⟨?_, ?_, fun _ => Ne.symm hevent⟩
      · intro hone
        by_contra hin
        exact hcases (.inl ⟨hone, hin⟩)
      · omega
    · rintro ⟨-, -, hevent⟩
      exact (hevent (by omega)).symm

theorem serves_step {call : EventCall} {log' : EventLog} (h : log.Serves)
    (hholds : log.Serves → log.Holds) (hstep : step call log = some log') :
    (log'.Serves ↔ Fits call log) ∧ (log'.Serves → log'.Holds) := by
  have hholds := hholds h
  cases call with
  | qevent event =>
      obtain rfl := Option.some.inj hstep
      by_cases hfull : log.queue.full
      · refine ⟨serves_qevent_full event h hholds hfull, fun _ => ?_⟩
        rw [qevent_full hfull]
        exact hholds
      · exact serves_qevent_room event h hholds hfull
  | deqevent =>
      obtain rfl := Option.some.inj hstep
      have hsound : log.Sound := ⟨hholds, h.fifo, h.real hholds⟩
      exact ⟨iff_of_true h.deqevent trivial, fun _ => hsound.deqevent.holds⟩

theorem sound_start {queue : EventQueue} (hempty : queue.eventinidx = queue.eventoutidx) :
    (start queue).Sound where
  holds := by
    unfold Holds
    change Circular _ _ queue.eventinidx queue.eventoutidx []
    rw [hempty]
    exact Circular.empty queue.out_lt
  fifo := ⟨List.prefix_rfl, by simp [start], by simp [start]⟩
  real := by simp [start, pending]

/-- From an empty queue, the calls see a bounded FIFO exactly when an event that comes while
one is pending finds the write index at 0, one that comes while `AS_MAX_EVENTSIZE - 1` are
pending finds the read index at 0, and no `AS_EVENT_NONE` is queued before that. -/
theorem channel_events_fifo_iff (queue : EventQueue)
    (hempty : queue.eventinidx = queue.eventoutidx) (calls : List EventCall) :
    (∀ log, Machine.Visits step (start queue) calls log → log.Serves) ↔
      Machine.Throughout step Fits calls (start queue) :=
  have hsound := sound_start hempty
  Machine.visits_iff serves_step calls hsound.serves fun _ => hsound.holds

instance (log : EventLog) : Decidable log.BoundedFifo :=
  decidable_of_iff (log.returned <+: log.accepted ∧ (∀ n ∈ log.drops, n = asMaxEventsize - 1) ∧
      ∀ n ∈ log.nones, n = 0)
    ⟨fun h => ⟨h.1, h.2.1, h.2.2⟩, fun h => ⟨h.inOrder, h.drops_full, h.nones_empty⟩⟩

instance (call : EventCall) (log : EventLog) : Decidable (Fits call log) :=
  match call with
  | .qevent _ => inferInstanceAs (Decidable (_ ∧ _ ∧ _))
  | .deqevent => .isTrue trivial

def initialQueue : EventQueue := ⟨fun _ => 0, 0, 0, by decide, by decide⟩

/-- Events that are fetched one by one. -/
theorem channel_events_fifo_alternating :
    initialQueue.eventinidx = initialQueue.eventoutidx ∧
      ∀ log, Machine.Visits step (start initialQueue)
        [.qevent 5, .deqevent, .qevent 2, .deqevent, .deqevent] log → log.Serves :=
  ⟨rfl, (channel_events_fifo_iff initialQueue rfl _).mpr (by decide)⟩

/-- The second event is dropped while one is pending. When the indices are at the end of the
ring, the 64th pending event is taken in, and the next answer is `AS_EVENT_NONE`. -/
theorem channel_events_not_fifo :
    (∃ log, Machine.Visits step (start initialQueue) [.qevent 5, .qevent 2] log ∧
      log.accepted = [5] ∧ log.drops = [1] ∧ ¬log.BoundedFifo) ∧
    ∃ log, Machine.Visits step (start initialQueue)
        ((List.replicate 63 [.qevent 5, .deqevent]).flatten ++ List.replicate 64 (.qevent 2) ++
          [.deqevent]) log ∧
      log.pending = List.replicate 64 2 ∧ log.nones = [64] ∧ ¬log.BoundedFifo := by
  constructor
  · exact Machine.exists_visits (by decide +kernel)
  · exact Machine.exists_visits (by decide +kernel)

end EventLog
end Slic
end WirelessMesh
