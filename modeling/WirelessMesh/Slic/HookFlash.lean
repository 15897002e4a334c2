import WirelessMesh.Slic.Line
import Mathlib.Data.List.Count

/-!
# Hook flashes

A short time on the hook is a flash, a long one the end of the call. The receiver starts a
timer when the phone goes on hook: the report of the off-hook state tells a flash while the
timer runs, and the end of the timer tells the end of the call. The code also queues the event
for the end of the call with the on-hook report itself.

The line is watched together with the events since the last off-hook report, the time it has
been on the hook, and what was queued during each time on the hook. When that is as it should be
is told by the reports, the receive ticks between them and the timer at the beginning.
-/

namespace WirelessMesh
namespace Slic

namespace LineChan

/-- The signalling of a telephone that the receiver watches for flashes. -/
def Phone (chan : LineChan) : Prop := chan.sig = .fxols ∨ chan.sig = .fxoks

instance (chan : LineChan) : Decidable chan.Phone := inferInstanceAs (Decidable (_ ∨ _))

def queued (chan chan' : LineChan) : List LineEvent := chan'.events.drop chan.events.length

variable {chan chan' : LineChan} {rxsig : RxSig} {new : List LineEvent}

theorem queued_eq (h : chan'.events = chan.events ++ new) : chan.queued chan' = new := by
  rw [queued, h, List.drop_left]

theorem Phone.of_sig (h : chan.Phone) (hsig : chan'.sig = chan.sig) : chan'.Phone := by
  unfold Phone
  rwa [hsig]

theorem Phone.hooksigPvt (hsig : chan.Phone) (h : chan.rxhooksig ≠ rxsig) :
    chan.hooksigPvt rxsig = { chan with rxhooksig := rxsig }.hooksigFxo rxsig := by
  rw [LineChan.hooksigPvt, if_neg h]
  rcases hsig with hsig | hsig <;> simp only [hsig]

theorem Phone.onhook (hsig : chan.Phone) (h : chan.rxhooksig ≠ .onhook) :
    chan.hooksigPvt .onhook =
      { chan with
        rxhooksig := .onhook, gotgs := false, txstate := .onhook, itimer := chan.rxflashtime * 8
        events := chan.events ++ [.onhook] } := by
  rw [hsig.hooksigPvt h]
  rfl

structure Answered (chan chan' : LineChan) : Prop where
  sig : chan'.sig = chan.sig
  rxflashtime : chan'.rxflashtime = chan.rxflashtime
  rxhooksig : chan'.rxhooksig = .offhook
  itimer : chan'.itimer = 0

theorem Phone.offhook (hsig : chan.Phone) (h : chan.rxhooksig ≠ .offhook) :
    chan.Answered (chan.hooksigPvt .offhook) := by
  rw [hsig.hooksigPvt h]
  unfold hooksigFxo
  dsimp only
  split_ifs <;> exact ⟨rfl, rfl, rfl, rfl⟩

theorem Phone.other (hsig : chan.Phone) (hon : rxsig ≠ .onhook) (hoff : rxsig ≠ .offhook)
    (h : chan.rxhooksig ≠ rxsig) :
    chan.hooksigPvt rxsig = { chan with rxhooksig := rxsig } := by
  rw [hsig.hooksigPvt h]
  cases rxsig with
  | onhook => exact absurd rfl hon
  | offhook => exact absurd rfl hoff
  | start => rfl
  | ring => rfl
  | initial => rfl

theorem Phone.rxhooksig_hooksigPvt (hsig : chan.Phone) (h : chan.rxhooksig ≠ rxsig) :
    (chan.hooksigPvt rxsig).rxhooksig = rxsig := by
  cases rxsig with
  | onhook => rw [hsig.onhook h]
  | offhook => exact (hsig.offhook h).rxhooksig
  | start | ring | initial => rw [hsig.other (by decide) (by decide) h]

theorem Phone.receive_queued (arm : Bool) (hsig : chan.Phone) :
    ∃ digits, .onhook ∉ digits ∧
      chan.queued (chan.receiveTick arm) =
        (if chan.ItimerDue arm then [.onhook] else []) ++ digits := by
  obtain ⟨digits, hdigits, hevents⟩ := (receiveTick_received arm chan).events
  have hover : ¬chan.ringdebTick.RingOver arm := by
    intro hover
    have hfxs := hover.1
    rw [ringdebTick_eq] at hfxs
    rcases hsig with hsig | hsig <;> simp [hsig, Sig.isFxs] at hfxs
  have hevent : expiryEvent chan.sig = .onhook := by
    rcases hsig with hsig | hsig <;> rw [hsig] <;> rfl
  rw [if_neg hover, hevent, List.append_nil, List.append_assoc] at hevents
  refine ⟨digits, ?_, queued_eq hevents⟩
  intro hmem
  obtain ⟨digit, hdigit⟩ := hdigits _ hmem
  cases hdigit

end LineChan

structure FlashWatch where
  chan : LineChan
  /-- The events since the last off-hook report. -/
  recent : List LineEvent
  /-- Since the on-hook report, if the line is on the hook: the receive ticks and the events. -/
  onhook : Option (ℕ × List LineEvent)
  /-- The times on the hook that an off-hook report has ended, with its own events. -/
  periods : List (ℕ × List LineEvent)

inductive HookInput
  | receive
  | report (rxsig : RxSig)
deriving DecidableEq

namespace FlashWatch

def start (chan : LineChan) : FlashWatch := ⟨chan, [], none, []⟩

def receive (arm : Bool) (w : FlashWatch) : FlashWatch :=
  let chan := w.chan.receiveTick arm
  let new := w.chan.queued chan
  { w with
    chan
    recent := w.recent ++ new
    onhook := w.onhook.map fun period => (period.1 + 1, period.2 ++ new) }

def change (rxsig : RxSig) (w : FlashWatch) : FlashWatch :=
  let chan := w.chan.hooksigPvt rxsig
  let new := w.chan.queued chan
  let ending := w.onhook.map fun period => (period.1, period.2 ++ new)
  match rxsig with
  | .offhook => { chan, recent := [], onhook := none, periods := w.periods ++ ending.toList }
  | .onhook => { w with chan, recent := w.recent ++ new, onhook := some (ending.getD (0, new)) }
  | .start | .ring | .initial => { w with chan, recent := w.recent ++ new, onhook := ending }

def step (arm : Bool) : HookInput → FlashWatch → Option FlashWatch
  | .receive, w => some (w.receive arm)
  | .report rxsig, w => some (if w.chan.rxhooksig = rxsig then w else w.change rxsig)

def Short (arm : Bool) (chan : LineChan) (ticks : ℕ) : Prop :=
  (ticks * asChunksize arm : ℤ) < chan.rxflashtime.toInt * 8

instance (arm : Bool) (chan : LineChan) (ticks : ℕ) : Decidable (Short arm chan ticks) :=
  inferInstanceAs (Decidable (_ < _))

/-- Flashes and the ends of calls are told apart. -/
structure Discriminates (arm : Bool) (w : FlashWatch) : Prop where
  once : w.recent.count .onhook ≤ 1
  flash : ∀ period ∈ w.periods, Short arm w.chan period.1 →
    period.2.count .winkflash = 1 ∧ .onhook ∉ period.2

/-- After the event for the end of the call, which every on-hook report queues, the flash timer
does not run out and no on-hook report comes until the line is off the hook again; and no
off-hook report ends a short time on the hook. -/
def Harmless (arm : Bool) : HookInput → FlashWatch → Prop
  | .receive, w => w.chan.ItimerDue arm → .onhook ∉ w.recent
  | .report .onhook, w => w.chan.rxhooksig ≠ .onhook → .onhook ∉ w.recent
  | .report .offhook, w => w.chan.rxhooksig ≠ .offhook →
      ∀ period ∈ w.onhook, ¬Short arm w.chan period.1
  | .report .start, _ | .report .ring, _ | .report .initial, _ => True

instance (arm : Bool) : (e : HookInput) → (w : FlashWatch) → Decidable (Harmless arm e w)
  | .receive, _ => inferInstanceAs (Decidable (_ → _))
  | .report .onhook, _ => inferInstanceAs (Decidable (_ → _))
  | .report .offhook, _ => inferInstanceAs (Decidable (_ → ∀ period ∈ _, ¬_))
  | .report .start, _ | .report .ring, _ | .report .initial, _ => .isTrue trivial

/-- During a time on the hook the event for the end of the call was queued already. -/
structure Watching (w : FlashWatch) : Prop where
  phone : w.chan.Phone
  called : ∀ period, w.onhook = some period → .onhook ∈ period.2 ∧ .onhook ∈ w.recent

variable {arm : Bool} {w : FlashWatch}

theorem start_discriminates (arm : Bool) (chan : LineChan) : (start chan).Discriminates arm where
  once := Nat.zero_le 1
  flash := by
    intro period h
    cases h

theorem start_watching {chan : LineChan} (hphone : chan.Phone) : (start chan).Watching where
  phone := hphone
  called := by
    intro period h
    cases h

/-- Nothing has ended, and at most one event for the end of the call is there. -/
theorem Discriminates.of_recent {w' : FlashWatch} (hgood : w.Discriminates arm)
    (hflash : w'.chan.rxflashtime = w.chan.rxflashtime) (hperiods : w'.periods = w.periods)
    (honce : w'.recent.count .onhook ≤ 1) : w'.Discriminates arm := by
  refine ⟨honce, ?_⟩
  unfold Short
  rw [hflash, hperiods]
  exact hgood.flash

/-- There may be one more event for the end of the call exactly if there is none yet. -/
theorem succ_le_one_iff {recent : List LineEvent} :
    recent.count .onhook + 1 ≤ 1 ↔ .onhook ∉ recent := by
  rw [← List.count_eq_zero]
  omega

theorem count_receive (arm : Bool) (hw : w.Watching) :
    (w.receive arm).recent.count .onhook =
      w.recent.count .onhook + if w.chan.ItimerDue arm then 1 else 0 := by
  obtain ⟨digits, hdigits, hqueued⟩ := hw.phone.receive_queued arm
  have hzero : digits.count .onhook = 0 := List.count_eq_zero.mpr hdigits
  unfold receive
  simp only [hqueued, List.count_append, hzero]
  split_ifs <;> rfl

theorem receive_step (hgood : w.Discriminates arm) (hw : w.Watching) :
    ((w.receive arm).Discriminates arm ↔ (w.chan.ItimerDue arm → .onhook ∉ w.recent)) ∧
      (w.receive arm).Watching := by
  have hreceived := LineChan.receiveTick_received arm w.chan
  have hsame : (w.receive arm).Discriminates arm ↔ (w.receive arm).recent.count .onhook ≤ 1 :=
    ⟨fun hgood' => hgood'.once, hgood.of_recent hreceived.rxflashtime rfl⟩
  refine ⟨?_, hw.phone.of_sig hreceived.sig, ?_⟩
  · rw [hsame, count_receive arm hw]
    by_cases hdue : w.chan.ItimerDue arm
    · rw [if_pos hdue, succ_le_one_iff]
      exact ⟨fun h _ => h, fun h => h hdue⟩
    · rw [if_neg hdue]
      exact iff_of_true hgood.once fun h => absurd h hdue
  · intro period hperiod
    obtain ⟨period', hperiod', rfl⟩ := Option.map_eq_some_iff.mp hperiod
    obtain ⟨hcalled, hrecent⟩ := hw.called period' hperiod'
    exact ⟨List.mem_append_left _ hcalled, List.mem_append_left _ hrecent⟩

theorem change_onhook_step (hgood : w.Discriminates arm) (hw : w.Watching)
    (h : w.chan.rxhooksig ≠ .onhook) :
    ((w.change .onhook).Discriminates arm ↔ .onhook ∉ w.recent) ∧
      (w.change .onhook).Watching := by
  have hchan := hw.phone.onhook h
  have hqueued : w.chan.queued (w.chan.hooksigPvt .onhook) = [.onhook] := by
    apply LineChan.queued_eq
    rw [hchan]
  have hcount : (w.change .onhook).recent.count .onhook = w.recent.count .onhook + 1 := by
    unfold change
    simp only [hqueued, List.count_append]
    rfl
  have hflash : (w.change .onhook).chan.rxflashtime = w.chan.rxflashtime :=
    (congrArg LineChan.rxflashtime hchan :)
  refine ⟨?_, hw.phone.of_sig (congrArg LineChan.sig hchan :), ?_⟩
  · rw [← succ_le_one_iff, ← hcount]
    exact ⟨fun hgood' => hgood'.once, hgood.of_recent hflash rfl⟩
  · intro period hperiod
    obtain rfl := Option.some.inj hperiod
    have hrecent : .onhook ∈ (w.change .onhook).recent := by
      rw [← List.count_pos_iff, hcount]
      exact Nat.succ_pos _
    refine ⟨?_, hrecent⟩
    rw [hqueued]
    cases w.onhook with
    | none => exact List.mem_singleton_self _
    | some period => exact List.mem_append_right _ (List.mem_singleton_self _)

/-- The off-hook report ends the time on the hook, in which that event was queued. -/
theorem change_offhook_step (hgood : w.Discriminates arm) (hw : w.Watching)
    (h : w.chan.rxhooksig ≠ .offhook) :
    ((w.change .offhook).Discriminates arm ↔
        ∀ period, w.onhook = some period → ¬Short arm w.chan period.1) ∧
      (w.change .offhook).Watching := by
  have hanswered := hw.phone.offhook h
  have hshort : ∀ ticks, Short arm (w.change .offhook).chan ticks ↔ Short arm w.chan ticks := by
    intro ticks
    have hsame : (w.change .offhook).chan.rxflashtime = w.chan.rxflashtime :=
      hanswered.rxflashtime
    unfold Short
    rw [hsame]
  refine ⟨⟨?_, ?_⟩, ?_⟩
  · intro hgood' period hperiod hlt
    have hmem : (period.1, period.2 ++ w.chan.queued (w.chan.hooksigPvt .offhook)) ∈
        (w.change .offhook).periods := by
      unfold change
      simp [hperiod]
    have honhook := (hgood'.flash _ hmem ((hshort _).mpr hlt)).2
    exact honhook (List.mem_append_left _ (hw.called period hperiod).1)
  · intro hlong
    refine ⟨Nat.zero_le 1, ?_⟩
    intro period hperiod hlt
    rw [hshort] at hlt
    rcases List.mem_append.mp hperiod with hold | hnew
    · exact hgood.flash period hold hlt
    · obtain ⟨period', hperiod', rfl⟩ := Option.map_eq_some_iff.mp (Option.mem_toList.mp hnew)
      exact absurd hlt (hlong period' hperiod')
  · constructor
    · exact hw.phone.of_sig hanswered.sig
    · intro period hperiod
      cases hperiod

theorem change_other {rxsig : RxSig} (hphone : w.chan.Phone) (hon : rxsig ≠ .onhook)
    (hoff : rxsig ≠ .offhook) (h : w.chan.rxhooksig ≠ rxsig) :
    w.change rxsig = { w with chan := { w.chan with rxhooksig := rxsig } } := by
  have hchan := hphone.other hon hoff h
  have hqueued : w.chan.queued (w.chan.hooksigPvt rxsig) = [] := by
    apply LineChan.queued_eq
    rw [hchan, List.append_nil]
  cases rxsig with
  | onhook => exact absurd rfl hon
  | offhook => exact absurd rfl hoff
  | start | ring | initial =>
      simp only [change, hqueued, List.append_nil]
      simp [hchan]

theorem change_other_step {rxsig : RxSig} (hgood : w.Discriminates arm) (hw : w.Watching)
    (hon : rxsig ≠ .onhook) (hoff : rxsig ≠ .offhook) (h : w.chan.rxhooksig ≠ rxsig) :
    (w.change rxsig).Discriminates arm ∧ (w.change rxsig).Watching := by
  rw [change_other hw.phone hon hoff h]
  exact ⟨⟨hgood.once, hgood.flash⟩, ⟨hw.phone, hw.called⟩⟩

theorem harmless_same {rxsig : RxSig} (h : w.chan.rxhooksig = rxsig) :
    Harmless arm (.report rxsig) w := by
  cases rxsig with
  | onhook => exact fun hne => absurd h hne
  | offhook => exact fun hne => absurd h hne
  | start | ring | initial => trivial

theorem step_iff {e : HookInput} {w' : FlashWatch} (hgood : w.Discriminates arm)
    (hw : w.Watching) (hstep : step arm e w = some w') :
    (w'.Discriminates arm ↔ Harmless arm e w) ∧ w'.Watching := by
  cases e with
  | receive =>
      obtain rfl := Option.some.inj hstep
      exact receive_step hgood hw
  | report rxsig =>
      obtain rfl := Option.some.inj hstep
      by_cases hsame : w.chan.rxhooksig = rxsig
      · rw [if_pos hsame]
        exact ⟨iff_of_true hgood (harmless_same hsame), hw⟩
      · rw [if_neg hsame]
        cases rxsig with
        | onhook =>
            obtain ⟨hiff, hnext⟩ := change_onhook_step hgood hw hsame
            exact ⟨hiff.trans ⟨fun h _ => h, fun h => h hsame⟩, hnext⟩
        | offhook =>
            obtain ⟨hiff, hnext⟩ := change_offhook_step hgood hw hsame
            exact ⟨hiff.trans ⟨fun h _ => h, fun h => h hsame⟩, hnext⟩
        | start | ring | initial =>
            obtain ⟨hgood', hw'⟩ := change_other_step hgood hw (by decide) (by decide) hsame
            exact ⟨iff_of_true hgood' trivial, hw'⟩

end FlashWatch

/-! ### The condition by the inputs -/

namespace HookInput

/-- The inputs without the reports of the state that the hook is in already. -/
def changes : RxSig → List HookInput → List HookInput
  | _, [] => []
  | rxhooksig, .receive :: inputs => .receive :: changes rxhooksig inputs
  | rxhooksig, .report rxsig :: inputs =>
      if rxhooksig = rxsig then changes rxhooksig inputs
      else .report rxsig :: changes rxsig inputs

def ticks (inputs : List HookInput) : ℕ := inputs.count .receive

def Hook (e : HookInput) : Prop := e = .report .onhook ∨ e = .report .offhook

instance (e : HookInput) : Decidable e.Hook := inferInstanceAs (Decidable (_ ∨ _))

def untilOffhook (inputs : List HookInput) : List HookInput :=
  inputs.takeWhile (· ≠ .report .offhook)

def untilHook (inputs : List HookInput) : List HookInput := inputs.takeWhile (¬Hook ·)

/-- What may follow on an on-hook report. Until the next off-hook report there is no other one,
and the flash timer does not run out; and an off-hook report comes only where the timer was set
to zero and the time on the hook has become long. -/
@[mk_iff] structure StaysDown (arm : Bool) (chan : LineChan) (inputs : List HookInput) : Prop where
  again : .report .onhook ∉ untilOffhook inputs
  timer :
    Countdown.expiries (asChunksize arm) (ticks (untilOffhook inputs)) (chan.rxflashtime * 8) = 0
  ended : .report .offhook ∈ inputs →
    chan.rxflashtime * 8 = 0 ∧ ¬FlashWatch.Short arm chan (ticks (untilOffhook inputs))

/-- No on-hook report is followed by what may not follow on it, and a timer that runs from the
beginning ends at most once before the first on-hook or off-hook report, and not at all before
an on-hook report. -/
@[mk_iff] structure Calm (arm : Bool) (chan : LineChan) (inputs : List HookInput) : Prop where
  onhook : ∀ i < inputs.length, inputs[i]? = some (.report .onhook) →
    StaysDown arm chan (inputs.drop (i + 1))
  idle : Countdown.expiries (asChunksize arm) (ticks (untilHook inputs)) chan.itimer ≤ 1
  first : inputs.find? (Hook ·) = some (.report .onhook) →
    Countdown.expiries (asChunksize arm) (ticks (untilHook inputs)) chan.itimer = 0

instance (arm : Bool) (chan : LineChan) (inputs : List HookInput) :
    Decidable (StaysDown arm chan inputs) :=
  decidable_of_iff _ (staysDown_iff arm chan inputs).symm

instance (arm : Bool) (chan : LineChan) (inputs : List HookInput) :
    Decidable (Calm arm chan inputs) :=
  decidable_of_iff _ (calm_iff arm chan inputs).symm

/-- The rest of a time on the hook of which some ticks have passed. -/
def DownFor (arm : Bool) (chan : LineChan) (itimer : BitVec 32) (n : ℕ)
    (inputs : List HookInput) : Prop :=
  .report .onhook ∉ untilOffhook inputs ∧
    Countdown.expiries (asChunksize arm) (ticks (untilOffhook inputs)) itimer = 0 ∧
    (.report .offhook ∈ inputs →
      ¬FlashWatch.Short arm chan (n + ticks (untilOffhook inputs)))

/-- The same for a time off the hook, with so many events for the end of the call. -/
def Idle (arm : Bool) (itimer : BitVec 32) (k : ℕ) (inputs : List HookInput) : Prop :=
  k + Countdown.expiries (asChunksize arm) (ticks (untilHook inputs)) itimer ≤ 1 ∧
    (inputs.find? (Hook ·) = some (.report .onhook) →
      k + Countdown.expiries (asChunksize arm) (ticks (untilHook inputs)) itimer = 0)

variable {arm : Bool} {chan : LineChan} {itimer : BitVec 32} {n k : ℕ} {rxsig : RxSig}
  {inputs : List HookInput}

theorem short_of_expiries (hflash : 0 < chan.rxflashtime.toInt) (hset : chan.rxflashtime * 8 ≠ 0)
    (h : Countdown.expiries (asChunksize arm) n (chan.rxflashtime * 8) = 0) :
    FlashWatch.Short arm chan n := by
  have hlt := Countdown.lt_length_of_expiries (chunk_pos arm) (two_mul_chunk_le arm) hset h
  obtain ⟨hnat, -⟩ := Countdown.toNat_of_toInt_pos hflash
  have hle : (chan.rxflashtime * 8).toNat ≤ chan.rxflashtime.toNat * 8 := by
    rw [BitVec.toNat_mul]
    exact Nat.mod_le _ _
  unfold FlashWatch.Short
  by_cases hsmall : 2 * (chan.rxflashtime * 8).toNat < 2 ^ 32 + 2 * asChunksize arm
  · have hmul := Countdown.mul_lt_of_lt_length (chunk_pos arm) hsmall hlt
    rw [← hnat]
    exact_mod_cast hmul.trans_le hle
  · rw [Countdown.length, if_neg hsmall, Nat.lt_one_iff] at hlt
    subst hlt
    omega

theorem staysDown_iff_downFor (hflash : 0 < chan.rxflashtime.toInt) :
    StaysDown arm chan inputs ↔ DownFor arm chan (chan.rxflashtime * 8) 0 inputs := by
  rw [staysDown_iff, DownFor, Nat.zero_add]
  refine and_congr_right fun _ => and_congr_right fun htimer => imp_congr_right fun _ => ?_
  refine ⟨And.right, fun hlong => ⟨?_, hlong⟩⟩
  by_contra hset
  exact hlong (short_of_expiries hflash hset htimer)

theorem downFor_receive :
    DownFor arm chan itimer n (.receive :: inputs) ↔
      ¬(itimer ≠ 0 ∧ Countdown.RunsOut (asChunksize arm) itimer) ∧
        DownFor arm chan (Countdown.tick (asChunksize arm) itimer) (n + 1) inputs := by
  have huntil : untilOffhook (.receive :: inputs) = .receive :: untilOffhook inputs := rfl
  have hticks : ticks (untilOffhook (.receive :: inputs)) = ticks (untilOffhook inputs) + 1 := by
    rw [huntil, ticks, List.count_cons_self, ticks]
  unfold DownFor
  rw [hticks, huntil, Countdown.expiries, Nat.add_eq_zero_iff, Nat.add_right_comm]
  simp only [List.mem_cons, reduceCtorEq, false_or, ite_eq_right_iff, one_ne_zero, imp_false,
    Nat.add_assoc]
  tauto

theorem downFor_offhook :
    DownFor arm chan itimer n (.report .offhook :: inputs) ↔ ¬FlashWatch.Short arm chan n := by
  simp [DownFor, untilOffhook, ticks, Countdown.expiries]

theorem not_downFor_onhook : ¬DownFor arm chan itimer n (.report .onhook :: inputs) := by
  simp [DownFor, untilOffhook]

theorem downFor_other (hon : rxsig ≠ .onhook) (hoff : rxsig ≠ .offhook) :
    DownFor arm chan itimer n (.report rxsig :: inputs) ↔ DownFor arm chan itimer n inputs := by
  simp [DownFor, untilOffhook, ticks, hon.symm, hoff, hoff.symm]

theorem idle_receive :
    Idle arm itimer k (.receive :: inputs) ↔
      Idle arm (Countdown.tick (asChunksize arm) itimer)
        (k + if itimer ≠ 0 ∧ Countdown.RunsOut (asChunksize arm) itimer then 1 else 0) inputs := by
  have hticks : ticks (untilHook (.receive :: inputs)) = ticks (untilHook inputs) + 1 := by
    simp [ticks, untilHook, Hook]
  have hfind : (HookInput.receive :: inputs).find? (Hook ·) = inputs.find? (Hook ·) := by
    simp [Hook]
  rw [Idle, Idle, hticks, hfind, Countdown.expiries, Nat.add_assoc]

theorem idle_offhook : Idle arm itimer k (.report .offhook :: inputs) ↔ k ≤ 1 := by
  simp [Idle, untilHook, ticks, Hook, Countdown.expiries]

theorem idle_onhook : Idle arm itimer k (.report .onhook :: inputs) ↔ k = 0 := by
  simp [Idle, untilHook, ticks, Hook, Countdown.expiries]
  omega

theorem idle_other (hon : rxsig ≠ .onhook) (hoff : rxsig ≠ .offhook) :
    Idle arm itimer k (.report rxsig :: inputs) ↔ Idle arm itimer k inputs := by
  simp [Idle, untilHook, ticks, Hook, hon, hoff]

theorem idle_stopped (arm : Bool) (inputs : List HookInput) : Idle arm 0 0 inputs := by
  rw [Idle, Countdown.expiries_stopped]
  exact ⟨Nat.zero_le 1, fun _ => rfl⟩

def LaterDown (arm : Bool) (chan : LineChan) (inputs : List HookInput) : Prop :=
  ∀ i < inputs.length, inputs[i]? = some (.report .onhook) →
    DownFor arm chan (chan.rxflashtime * 8) 0 (inputs.drop (i + 1))

theorem laterDown_cons {e : HookInput} :
    LaterDown arm chan (e :: inputs) ↔
      (e = .report .onhook → DownFor arm chan (chan.rxflashtime * 8) 0 inputs) ∧
        LaterDown arm chan inputs := by
  unfold LaterDown
  rw [List.length_cons, Nat.forall_lt_succ_left]
  simp

theorem laterDown_cons_of_ne {e : HookInput} (h : e ≠ .report .onhook) :
    LaterDown arm chan (e :: inputs) ↔ LaterDown arm chan inputs := by
  rw [laterDown_cons]
  exact and_iff_right fun he => absurd he h

end HookInput

namespace FlashWatch

open HookInput

/-- The inputs are calm, as seen from a line that is watched already. -/
def Ahead (arm : Bool) (w : FlashWatch) (inputs : List HookInput) : Prop :=
  LaterDown arm w.chan inputs ∧
    match w.onhook with
    | none => Idle arm w.chan.itimer (w.recent.count .onhook) inputs
    | some period => DownFor arm w.chan w.chan.itimer period.1 inputs

variable {arm : Bool} {w w' : FlashWatch} {inputs : List HookInput}

theorem laterDown_congr {chan chan' : LineChan} (h : chan'.rxflashtime = chan.rxflashtime) :
    LaterDown arm chan' inputs ↔ LaterDown arm chan inputs := by
  unfold LaterDown DownFor Short
  rw [h]

theorem downFor_congr {chan chan' : LineChan} {itimer : BitVec 32} {n : ℕ}
    (h : chan'.rxflashtime = chan.rxflashtime) :
    DownFor arm chan' itimer n inputs ↔ DownFor arm chan itimer n inputs := by
  unfold DownFor Short
  rw [h]

theorem ahead_receive (hw : w.Watching) :
    w.Ahead arm (.receive :: inputs) ↔
      Harmless arm .receive w ∧ (w.receive arm).Ahead arm inputs := by
  have hreceived := LineChan.receiveTick_received arm w.chan
  have hflash : (w.receive arm).chan.rxflashtime = w.chan.rxflashtime := hreceived.rxflashtime
  have hitimer : (w.receive arm).chan.itimer = Countdown.tick (asChunksize arm) w.chan.itimer :=
    hreceived.itimer
  unfold Ahead
  rw [laterDown_cons_of_ne (by decide), laterDown_congr hflash, hitimer, and_left_comm (a := Harmless arm .receive w)]
  refine and_congr_right fun _ => ?_
  cases honhook : w.onhook with
  | none =>
      have honhook' : (w.receive arm).onhook = none := by simp [receive, honhook]
      simp only [honhook']
      rw [idle_receive, count_receive arm hw]
      -- a second event is one too many
      refine ⟨fun hidle => ⟨fun hdue => ?_, hidle⟩, And.right⟩
      have hle := hidle.1
      have hout : w.chan.itimer ≠ 0 ∧ Countdown.RunsOut (asChunksize arm) w.chan.itimer := hdue
      rw [if_pos hout] at hle
      rw [← List.count_eq_zero]
      omega
  | some period =>
      have honhook' : ∃ events, (w.receive arm).onhook = some (period.1 + 1, events) := by
        simp [receive, honhook]
      obtain ⟨events, honhook'⟩ := honhook'
      simp only [honhook']
      rw [downFor_receive, downFor_congr hflash]
      refine and_congr_left fun _ => ?_
      exact ⟨fun hnot hdue => absurd hdue hnot, fun h hdue => h hdue (hw.called period honhook).2⟩

theorem ahead_offhook (hgood : w.Discriminates arm) (hw : w.Watching)
    (h : w.chan.rxhooksig ≠ .offhook) :
    w.Ahead arm (.report .offhook :: inputs) ↔
      Harmless arm (.report .offhook) w ∧ (w.change .offhook).Ahead arm inputs := by
  have hanswered := hw.phone.offhook h
  have hflash : (w.change .offhook).chan.rxflashtime = w.chan.rxflashtime := hanswered.rxflashtime
  have hitimer : (w.change .offhook).chan.itimer = 0 := hanswered.itimer
  have hnext : (w.change .offhook).Ahead arm inputs ↔ LaterDown arm w.chan inputs := by
    rw [Ahead, laterDown_congr hflash, hitimer]
    exact and_iff_left (idle_stopped arm inputs)
  rw [hnext, Ahead, laterDown_cons_of_ne (by decide), and_comm]
  refine and_congr_left fun _ => ?_
  cases honhook : w.onhook with
  | none =>
      dsimp only
      rw [idle_offhook]
      refine iff_of_true hgood.once fun _ period hperiod => ?_
      rw [honhook] at hperiod
      cases hperiod
  | some period =>
      dsimp only
      rw [downFor_offhook]
      constructor
      · intro hlong _ period' hperiod
        rw [honhook] at hperiod
        obtain rfl := Option.some.inj hperiod
        exact hlong
      · exact fun hlong => hlong h period honhook

theorem ahead_onhook (hw : w.Watching) (h : w.chan.rxhooksig ≠ .onhook) :
    w.Ahead arm (.report .onhook :: inputs) ↔
      Harmless arm (.report .onhook) w ∧ (w.change .onhook).Ahead arm inputs := by
  have hchan := hw.phone.onhook h
  have hflash : (w.change .onhook).chan.rxflashtime = w.chan.rxflashtime :=
    (congrArg LineChan.rxflashtime hchan :)
  have hitimer : (w.change .onhook).chan.itimer = w.chan.rxflashtime * 8 :=
    (congrArg LineChan.itimer hchan :)
  cases honhook : w.onhook with
  | none =>
      have hnext : (w.change .onhook).Ahead arm inputs ↔ LaterDown arm w.chan inputs ∧
          DownFor arm w.chan (w.chan.rxflashtime * 8) 0 inputs := by
        have honhook' : ∃ events, (w.change .onhook).onhook = some (0, events) := by
          simp [change, honhook]
        obtain ⟨events, honhook'⟩ := honhook'
        simp only [Ahead, honhook']
        rw [laterDown_congr hflash, downFor_congr hflash, hitimer]
      have hharmless : Harmless arm (.report .onhook) w ↔ w.recent.count .onhook = 0 := by
        rw [List.count_eq_zero]
        exact ⟨fun hnot => hnot h, fun hnot _ => hnot⟩
      simp only [Ahead, honhook] at hnext ⊢
      rw [laterDown_cons, idle_onhook, hharmless, hnext]
      tauto
  | some period =>
      have hrecent := (hw.called period honhook).2
      refine iff_of_false (fun hahead => ?_) fun hboth => hboth.1 h hrecent
      simp only [Ahead, honhook] at hahead
      exact not_downFor_onhook hahead.2

theorem ahead_other {rxsig : RxSig} (hw : w.Watching) (hon : rxsig ≠ .onhook)
    (hoff : rxsig ≠ .offhook) (h : w.chan.rxhooksig ≠ rxsig) :
    w.Ahead arm (.report rxsig :: inputs) ↔ (w.change rxsig).Ahead arm inputs := by
  have hne : HookInput.report rxsig ≠ .report .onhook := fun he => hon (HookInput.report.inj he)
  rw [change_other hw.phone hon hoff h, Ahead, Ahead, laterDown_cons_of_ne hne]
  refine and_congr Iff.rfl ?_
  cases w.onhook with
  | none => exact idle_other hon hoff
  | some period => exact downFor_other hon hoff

theorem ahead_cons {e : HookInput} (hgood : w.Discriminates arm) (hw : w.Watching)
    (hstep : step arm e w = some w') :
    w.Ahead arm (changes w.chan.rxhooksig (e :: inputs)) ↔
      Harmless arm e w ∧ w'.Ahead arm (changes w'.chan.rxhooksig inputs) := by
  cases e with
  | receive =>
      obtain rfl := Option.some.inj hstep
      have hsame : (w.receive arm).chan.rxhooksig = w.chan.rxhooksig :=
        (LineChan.receiveTick_received arm w.chan).rxhooksig
      rw [hsame]
      exact ahead_receive hw
  | report rxsig =>
      obtain rfl := Option.some.inj hstep
      by_cases hsame : w.chan.rxhooksig = rxsig
      · rw [if_pos hsame, changes, if_pos hsame]
        exact (and_iff_right (harmless_same hsame)).symm
      · rw [if_neg hsame, changes, if_neg hsame]
        have hhook : (w.change rxsig).chan.rxhooksig = rxsig := by
          have hchan : (w.change rxsig).chan = w.chan.hooksigPvt rxsig := by
            cases rxsig <;> rfl
          rw [hchan, hw.phone.rxhooksig_hooksigPvt hsame]
        rw [hhook]
        cases rxsig with
        | onhook => exact ahead_onhook hw hsame
        | offhook => exact ahead_offhook hgood hw hsame
        | start | ring | initial =>
            rw [ahead_other hw (by decide) (by decide) hsame]
            exact (and_iff_right trivial).symm

theorem throughout_harmless_iff (hgood : w.Discriminates arm) (hw : w.Watching) :
    Machine.Throughout (step arm) (Harmless arm) inputs w ↔
      w.Ahead arm (changes w.chan.rxhooksig inputs) := by
  induction inputs generalizing w with
  | nil =>
      refine iff_of_true trivial ⟨fun i hi => absurd hi (Nat.not_lt_zero i), ?_⟩
      cases w.onhook with
      | none => exact ⟨hgood.once, fun h => nomatch h⟩
      | some period => exact ⟨List.not_mem_nil, rfl, fun h => nomatch h⟩
  | cons e inputs ih =>
      obtain ⟨w', hstep⟩ : ∃ w', step arm e w = some w' := by
        cases e <;> exact ⟨_, rfl⟩
      rw [Machine.throughout_cons_of_some hstep, ahead_cons hgood hw hstep]
      refine and_congr_right fun hharmless => ?_
      obtain ⟨hiff, hw'⟩ := step_iff hgood hw hstep
      exact ih (hiff.mpr hharmless) hw'

theorem start_ahead_iff {chan : LineChan} (hflash : 0 < chan.rxflashtime.toInt) :
    (start chan).Ahead arm inputs ↔ Calm arm chan inputs := by
  have hlater : LaterDown arm chan inputs ↔ ∀ i < inputs.length,
      inputs[i]? = some (.report .onhook) → StaysDown arm chan (inputs.drop (i + 1)) := by
    simp only [staysDown_iff_downFor hflash]
    rfl
  rw [calm_iff, ← hlater, Ahead]
  simp only [start, Idle, List.count_nil, Nat.zero_add]

end FlashWatch

/-- With a flash time that is not zero, flashes and the ends of calls are told apart along a run of
reports and receive ticks exactly if its changes of the hook are calm. -/
theorem flashes_discriminated_iff (arm : Bool) (chan : LineChan) (hphone : chan.Phone)
    (hflash : 0 < chan.rxflashtime.toInt) (inputs : List HookInput) :
    (∀ w, Machine.Visits (FlashWatch.step arm) (.start chan) inputs w → w.Discriminates arm) ↔
      HookInput.Calm arm chan (HookInput.changes chan.rxhooksig inputs) := by
  have hgood := FlashWatch.start_discriminates arm chan
  have hw := FlashWatch.start_watching hphone
  rw [Machine.visits_iff FlashWatch.step_iff inputs hgood hw,
    FlashWatch.throughout_harmless_iff hgood hw, ← FlashWatch.start_ahead_iff hflash]
  rfl

/-- A call of one tick that ends. -/
theorem flashes_discriminated_answer : (createChannel .fxoks (fun _ => 0) 32).Phone ∧
    0 < (createChannel .fxoks (fun _ => 0) 32).rxflashtime.toInt ∧
    ∀ w, Machine.Visits (FlashWatch.step false) (.start (createChannel .fxoks (fun _ => 0) 32))
      [.report .offhook, .receive, .report .onhook, .receive] w → w.Discriminates false :=
  ⟨by decide, by decide, (flashes_discriminated_iff false (createChannel .fxoks (fun _ => 0) 32)
    (by decide) (by decide) [.report .offhook, .receive, .report .onhook, .receive]).mpr
      (by decide +kernel)⟩

/-- A flash of one tick, with the event for the end of the call; and a call that ends, with two
of them. -/
theorem flash_ends_call :
    (∃ w, Machine.Visits (FlashWatch.step false)
        (.start (createChannel .fxoks (fun _ => 0) 32))
        [.report .offhook, .report .onhook, .receive, .report .offhook] w ∧
      w.periods = [(1, [.onhook, .winkflash])] ∧ FlashWatch.Short false w.chan 1) ∧
    ∃ w, Machine.Visits (FlashWatch.step false)
        (.start (createChannel .fxoks (fun _ => 0) 32))
        (.report .offhook :: .report .onhook :: List.replicate 32 .receive) w ∧
      w.recent = [.onhook, .onhook] :=
  ⟨Machine.exists_visits (by decide +kernel), Machine.exists_visits (by decide +kernel)⟩

end Slic
end WirelessMesh
