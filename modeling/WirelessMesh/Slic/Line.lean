import WirelessMesh.Lib.Countdown
import WirelessMesh.Lib.Runs
import WirelessMesh.Slic.Transmit

/-!
# The signalling of a telephone line

A channel signals to its line through `hooksig` and hears of it through
`as_io_channel_hooksig`. Both directions have timers that the transmit and the receive
interrupt count down, one chunk of samples at a time. A process asks for hook states by
`ioctl`. The channel is in a span with the flag `AS_FLAG_RBS`, as all channels of the card.
-/

namespace WirelessMesh
namespace Slic

def asRingDebounceTime : CInt := 2000
def asRingtrailer : CInt := 50 * 8
def asAfterstartTime : CInt := 500
def asKewltime : CInt := 500
def asAfterkewltime : CInt := 300

/-- `AS_SIG_NONE` to `AS_SIG_FXOKS`. -/
inductive Sig
  | none
  | fxsls
  | fxsgs
  | fxsks
  | fxols
  | fxogs
  | fxoks
deriving DecidableEq

/-- The bit `__AS_SIG_FXO`. -/
def Sig.isFxo : Sig → Bool
  | .fxols | .fxogs | .fxoks => true
  | .none | .fxsls | .fxsgs | .fxsks => false

/-- The bit `__AS_SIG_FXS`. -/
def Sig.isFxs : Sig → Bool
  | .fxsls | .fxsgs | .fxsks => true
  | .none | .fxols | .fxogs | .fxoks => false

/-- `as_txsig_t` -/
inductive TxSig
  | onhook
  | offhook
  | start
  | kewl
deriving DecidableEq

/-- `as_rxsig_t` -/
inductive RxSig
  | onhook
  | offhook
  | start
  | ring
  | initial
deriving DecidableEq

/-- `AS_TXSTATE_t` -/
inductive TxState
  | onhook
  | offhook
  | start
  | prewink
  | wink
  | preflash
  | flash
  | debounce
  | afterstart
  | ringon
  | ringoff
  | kewl
  | afterkewl
deriving DecidableEq

/-- The events of the line; a digit stands for the character that is or'ed to
`AS_EVENT_PULSEDIGIT`. -/
inductive LineEvent
  | onhook
  | ringoffhook
  | winkflash
  | ringeron
  | ringeroff
  | hookcomplete
  | pulsedigit (digit : CInt)
deriving DecidableEq

/-- The fields of `struct as_zone_tones_data` that ringing reads. -/
structure ZoneRing where
  ringcadence : Fin 16 → CInt
  pause : CInt

/-- The signalling fields of `struct as_dev_chan`. -/
structure LineChan where
  sig : Sig
  /-- `AS_CHAN_FLAG_CLEAR` is set. -/
  clear : Bool
  /-- The file of the channel has `O_NONBLOCK`. -/
  nonblock : Bool
  txstate : TxState
  rxhooksig : RxSig
  otimer : CInt
  itimer : CInt
  gotgs : Bool
  kewlonhook : Bool
  ringcadence : Fin 16 → CInt
  cadencepos : Fin 16
  firstDialingTimer : CInt
  ringdebtimer : CInt
  ringtrailer : CInt
  pulsecount : CInt
  pulsetimer : CInt
  prewinktime : CInt
  preflashtime : CInt
  winktime : CInt
  flashtime : CInt
  starttime : CInt
  rxflashtime : CInt
  debouncetime : CInt
  /-- What was passed to `hooksig`, oldest first. -/
  sent : List TxSig
  /-- What was passed to `as_channel_qevent_nolock`, oldest first. -/
  events : List LineEvent

/-- A cadence has a first entry. -/
instance cadenceNeZero : NeZero 16 := ⟨by decide⟩

/-- The line of a channel as `__as_create_channel` leaves it, with the cadence and the flash
time that it is given. -/
def createChannel (sig : Sig) (ringcadence : Fin 16 → CInt) (rxflashtime : CInt) : LineChan where
  sig
  clear := false
  nonblock := false
  txstate := .onhook
  rxhooksig := .initial
  otimer := 0
  itimer := 0
  gotgs := false
  kewlonhook := false
  ringcadence
  cadencepos := 0
  firstDialingTimer := 0
  ringdebtimer := 0
  ringtrailer := 0
  pulsecount := 0
  pulsetimer := 0
  prewinktime := 0
  preflashtime := 0
  winktime := 0
  flashtime := 0
  starttime := 0
  rxflashtime
  debouncetime := 0
  sent := []
  events := []

theorem chunk_pos (arm : Bool) : 0 < asChunksize arm := by cases arm <;> decide

theorem two_mul_chunk_le (arm : Bool) : 2 * asChunksize arm ≤ 2 ^ 32 := by cases arm <;> decide

namespace LineChan

/-- `as_channel_qevent_nolock` -/
def qevent (event : LineEvent) (chan : LineChan) : LineChan :=
  { chan with events := chan.events ++ [event] }

/-- `as_channel_rbs_sethook`. Its test of the span's flags lets every channel of the card
pass. -/
def rbsSethook (txsig : TxSig) (txstate : TxState) (timeout : CInt) (chan : LineChan) :
    LineChan :=
  { chan with txstate, sent := chan.sent ++ [txsig], otimer := timeout * 8 }

/-! ## Transmit -/

/-- The end of a timed hook state, for a process that does not wait. -/
def hookcomplete (chan : LineChan) : LineChan :=
  if chan.nonblock then chan.qevent .hookcomplete else chan

/-- The next position of the cadence and its time. An entry of zero leads back to the first
position, with the time that the zone has there. -/
def nextCadence (zone : ZoneRing) (chan : LineChan) : Fin 16 × CInt :=
  -- the sum of positions wraps at `AS_MAX_CADENCE`
  let cadencepos := chan.cadencepos + 1
  let len := chan.ringcadence cadencepos
  if len = 0 then (0, zone.ringcadence 0) else (cadencepos, len)

def rbsOtimerExpire (zone : ZoneRing) (chan : LineChan) : LineChan :=
  let chan := { chan with otimer := 0 }
  match chan.txstate with
  | .ringoff =>
      let (cadencepos, len) := chan.nextCadence zone
      ({ chan with cadencepos }.rbsSethook .start .ringon len).qevent .ringeron
  | .ringon =>
      let (cadencepos, len) := chan.nextCadence zone
      let chan := { chan with cadencepos, firstDialingTimer := zone.pause }
      (chan.rbsSethook .offhook .ringoff len).qevent .ringeroff
  | .start => chan.rbsSethook .offhook .afterstart asAfterstartTime
  | .prewink => chan.rbsSethook .offhook .wink chan.winktime
  | .wink => (chan.rbsSethook .onhook .onhook 0).hookcomplete
  | .preflash => chan.rbsSethook .onhook .flash chan.flashtime
  | .flash => (chan.rbsSethook .offhook .offhook 0).hookcomplete
  | .debounce =>
      let chan := chan.rbsSethook .offhook .offhook 0
      if chan.rxhooksig = .onhook then { chan with itimer := chan.rxflashtime * 8 } else chan
  | .afterstart => (chan.rbsSethook .offhook .offhook 0).hookcomplete
  | .kewl => (chan.rbsSethook .onhook .afterkewl asAfterkewltime).hookcomplete
  | .afterkewl =>
      let chan := if chan.kewlonhook then chan.qevent .onhook else chan
      { chan with txstate := .onhook, gotgs := false }
  | .onhook | .offhook => chan

/-- The part of `as_io_span_out_transmit` that counts for the line. -/
def transmitTick (arm : Bool) (zone : ZoneRing) (chan : LineChan) : LineChan :=
  if chan.otimer = 0 then chan
  else
    let counted := { chan with otimer := chan.otimer - BitVec.ofNat 32 (asChunksize arm) }
    if Countdown.RunsOut (asChunksize arm) chan.otimer then counted.rbsOtimerExpire zone
  else counted

/-! ## Receive -/

def rbsItimerExpire (chan : LineChan) : LineChan :=
  match chan.sig with
  | .fxols | .fxogs | .fxoks => { chan.qevent .onhook with gotgs := false }
  | .none | .fxsls | .fxsgs | .fxsks => chan.qevent .ringoffhook

/-- The cases `AS_SIG_FXOLS` and `AS_SIG_FXOKS` of `__as_io_channel_in_hooksig_pvt`. -/
def hooksigFxo (rxsig : RxSig) (chan : LineChan) : LineChan :=
  match rxsig with
  | .offhook =>
      let chan :=
        if chan.txstate = .start then chan.rbsSethook .offhook .afterstart asAfterstartTime
        else chan
      let chan := { chan with kewlonhook := false }
      let chan :=
        if chan.itimer ≠ (0 : CInt) then chan.qevent .winkflash
        else if chan.gotgs then chan
        else { chan.qevent .ringoffhook with gotgs := true }
      { chan with itimer := 0 }
  | .onhook =>
      let chan := { chan with gotgs := false, txstate := .onhook }.qevent .onhook
      -- the state was just set, so that neither test sees the one before
      let chan :=
        if chan.txstate ≠ .debounce ∧ chan.txstate ≠ .kewl ∧ chan.txstate ≠ .afterkewl then
          { chan with itimer := chan.rxflashtime * 8 }
        else chan
      if chan.txstate = .kewl then { chan with kewlonhook := true } else chan
  | .start | .ring | .initial => chan

/-- The case `AS_SIG_FXSGS`. -/
def hooksigFxsgs (rxsig : RxSig) (chan : LineChan) : LineChan :=
  if rxsig = .onhook then
    let chan := { chan with ringdebtimer := asRingDebounceTime, ringtrailer := 0 }
    if chan.txstate ≠ .debounce then { chan.qevent .onhook with gotgs := false } else chan
  else chan

def hooksigPvt (rxsig : RxSig) (chan : LineChan) : LineChan :=
  if chan.rxhooksig = rxsig then chan
  else
    let chan := { chan with rxhooksig := rxsig }
    match chan.sig with
    | .fxsks => if chan.txstate ≠ .offhook then chan else chan.hooksigFxsgs rxsig
    | .fxsgs => chan.hooksigFxsgs rxsig
    | .fxogs =>
        let chan :=
          if rxsig = .start ∧ chan.gotgs = false then
            { chan.qevent .ringoffhook with gotgs := true }
          else chan
        chan.hooksigFxo rxsig
    | .fxols | .fxoks => chan.hooksigFxo rxsig
    | .none | .fxsls => chan

/-- The timer of winks and flashes in `as_io_span_in_receive`. -/
def itimerTick (arm : Bool) (chan : LineChan) : LineChan :=
  if chan.itimer = 0 then chan
  else
    let counted := { chan with itimer := chan.itimer - BitVec.ofNat 32 (asChunksize arm) }
    if Countdown.RunsOut (asChunksize arm) chan.itimer then counted.rbsItimerExpire else counted

def ringdebTick (chan : LineChan) : LineChan :=
  if chan.ringdebtimer = 0 then chan else { chan with ringdebtimer := chan.ringdebtimer - 1 }

def trailerTick (arm : Bool) (chan : LineChan) : LineChan :=
  if chan.sig.isFxs then
    if chan.rxhooksig = .ring then { chan with ringtrailer := asRingtrailer }
    else if chan.ringtrailer = 0 then chan
    else
      let chan := { chan with ringtrailer := chan.ringtrailer - BitVec.ofNat 32 (asChunksize arm) }
      if chan.ringtrailer = 0 ∧ chan.ringdebtimer = 0 then chan.qevent .ringoffhook else chan
  else chan

def pulseDigit (pulsecount : CInt) : Option CInt :=
  if 12 < pulsecount.toInt then none
  else if 11 < pulsecount.toInt then some 35
  else if 10 < pulsecount.toInt then some 42
  else if 9 < pulsecount.toInt then some 48
  else some (48 + pulsecount)

def pulseTick (chan : LineChan) : LineChan :=
  if chan.pulsetimer = 0 then chan
  else
    let chan := { chan with pulsetimer := chan.pulsetimer - 1 }
    if chan.pulsetimer.toInt ≤ 0 ∧ chan.pulsecount ≠ 0 then
      { chan with
        events := chan.events ++ ((pulseDigit chan.pulsecount).map .pulsedigit).toList
        pulsecount := 0 }
    else chan

/-- The part of `as_io_span_in_receive` that counts for the line. -/
def receiveTick (arm : Bool) (chan : LineChan) : LineChan :=
  (((chan.itimerTick arm).ringdebTick).trailerTick arm).pulseTick

/-! ### What a receive tick does -/

/-- The next receive tick finds the timer of winks and flashes at its end. -/
def ItimerDue (arm : Bool) (chan : LineChan) : Prop :=
  chan.itimer ≠ 0 ∧ Countdown.RunsOut (asChunksize arm) chan.itimer

instance (arm : Bool) (chan : LineChan) : Decidable (chan.ItimerDue arm) :=
  inferInstanceAs (Decidable (_ ∧ _))

def expiryEvent (sig : Sig) : LineEvent := if sig.isFxo then .onhook else .ringoffhook

/-- The last chunk of the time after a ring has passed, and so has the debounce time. -/
def RingOver (arm : Bool) (chan : LineChan) : Prop :=
  chan.sig.isFxs ∧ chan.rxhooksig ≠ .ring ∧ chan.ringtrailer ≠ 0 ∧
    chan.ringtrailer - BitVec.ofNat 32 (asChunksize arm) = 0 ∧ chan.ringdebtimer = 0

instance (arm : Bool) (chan : LineChan) : Decidable (chan.RingOver arm) :=
  inferInstanceAs (Decidable (_ ∧ _))

section Ticks

variable (arm : Bool) (chan : LineChan)

theorem rbsItimerExpire_eq :
    chan.rbsItimerExpire =
      { chan with
        gotgs := if chan.sig.isFxo then false else chan.gotgs
        events := chan.events ++ [expiryEvent chan.sig] } := by
  cases h : chan.sig <;> simp [rbsItimerExpire, expiryEvent, qevent, Sig.isFxo, h]

theorem itimerTick_eq :
    chan.itimerTick arm =
      { chan with
        itimer := if chan.itimer = 0 then 0 else chan.itimer - BitVec.ofNat 32 (asChunksize arm)
        gotgs := if chan.ItimerDue arm ∧ chan.sig.isFxo then false else chan.gotgs
        events := chan.events ++ if chan.ItimerDue arm then [expiryEvent chan.sig] else [] } := by
  by_cases hzero : chan.itimer = 0
  · have hdue : ¬chan.ItimerDue arm := fun hdue => hdue.1 hzero
    simp only [itimerTick, hzero, hdue, if_true, if_false, false_and, List.append_nil]
    rw [← hzero]
  by_cases hout : Countdown.RunsOut (asChunksize arm) chan.itimer
  · have hdue : chan.ItimerDue arm := ⟨hzero, hout⟩
    simp only [itimerTick, if_neg hzero, if_pos hout, rbsItimerExpire_eq, hdue, true_and, if_true]
  · have hdue : ¬chan.ItimerDue arm := fun hdue => hout hdue.2
    simp only [itimerTick, if_neg hzero, if_neg hout, hdue, false_and, if_false, List.append_nil]

theorem ringdebTick_eq :
    chan.ringdebTick =
      { chan with
        ringdebtimer := if chan.ringdebtimer = 0 then 0 else chan.ringdebtimer - 1 } := by
  unfold ringdebTick
  split_ifs with hzero
  · rw [← hzero]
  · rfl

theorem trailerTick_eq :
    chan.trailerTick arm =
      { chan with
        ringtrailer :=
          if chan.sig.isFxs = false then chan.ringtrailer
          else if chan.rxhooksig = .ring then asRingtrailer
          else if chan.ringtrailer = 0 then chan.ringtrailer
          else chan.ringtrailer - BitVec.ofNat 32 (asChunksize arm)
        events := chan.events ++ if chan.RingOver arm then [.ringoffhook] else [] } := by
  unfold trailerTick
  by_cases hsig : chan.sig.isFxs
  · by_cases hring : chan.rxhooksig = .ring
    · simp [hsig, hring, RingOver]
    by_cases hzero : chan.ringtrailer = 0
    · simp only [hsig, hring, hzero, if_true, if_false, RingOver]
      simp [← hzero]
    by_cases hover :
      chan.ringtrailer - BitVec.ofNat 32 (asChunksize arm) = 0 ∧ chan.ringdebtimer = 0
    · have hdue : chan.RingOver arm := ⟨hsig, hring, hzero, hover⟩
      simp only [hsig, hring, hzero, hdue, if_true, if_false, if_pos hover, qevent]
      simp
    · have hdue : ¬chan.RingOver arm := fun h => hover h.2.2.2
      simp only [hsig, hring, hzero, hdue, if_true, if_false, if_neg hover]
      simp
  · simp [hsig, RingOver]

theorem pulseTick_eq :
    ∃ digits, (∀ e ∈ digits, ∃ digit, e = LineEvent.pulsedigit digit) ∧
      chan.pulseTick =
        { chan with
          pulsetimer := chan.pulseTick.pulsetimer
          pulsecount := chan.pulseTick.pulsecount
          events := chan.events ++ digits } := by
  unfold pulseTick
  split_ifs with hzero
  · exact ⟨[], by simp, by simp⟩
  dsimp only
  split_ifs with hend
  · refine ⟨_, ?_, rfl⟩
    intro e he
    obtain ⟨digit, -, rfl⟩ := by simpa using he
    exact ⟨digit, rfl⟩
  · exact ⟨[], by simp, by simp⟩

end Ticks

/-- What a receive tick does to the fields that the line goes by. The trailer of a ring is
tested after the debounce time was counted. -/
structure Received (arm : Bool) (chan chan' : LineChan) : Prop where
  sig : chan'.sig = chan.sig
  txstate : chan'.txstate = chan.txstate
  rxhooksig : chan'.rxhooksig = chan.rxhooksig
  rxflashtime : chan'.rxflashtime = chan.rxflashtime
  otimer : chan'.otimer = chan.otimer
  ringcadence : chan'.ringcadence = chan.ringcadence
  cadencepos : chan'.cadencepos = chan.cadencepos
  sent : chan'.sent = chan.sent
  itimer : chan'.itimer =
    if chan.itimer = 0 then 0 else chan.itimer - BitVec.ofNat 32 (asChunksize arm)
  ringdebtimer : chan'.ringdebtimer = chan.ringdebTick.ringdebtimer
  ringtrailer : chan'.ringtrailer = (chan.trailerTick arm).ringtrailer
  events : ∃ digits, (∀ e ∈ digits, ∃ digit, e = LineEvent.pulsedigit digit) ∧
    chan'.events = chan.events ++ (if chan.ItimerDue arm then [expiryEvent chan.sig] else []) ++
      (if chan.ringdebTick.RingOver arm then [.ringoffhook] else []) ++ digits

theorem receiveTick_received (arm : Bool) (chan : LineChan) :
    Received arm chan (chan.receiveTick arm) := by
  obtain ⟨digits, hdigits, heq⟩ :=
    pulseTick_eq (((chan.itimerTick arm).ringdebTick).trailerTick arm)
  have hover :
      (chan.itimerTick arm).ringdebTick.RingOver arm ↔ chan.ringdebTick.RingOver arm := by
    unfold RingOver
    simp only [ringdebTick_eq, itimerTick_eq]
  unfold receiveTick
  rw [heq]
  constructor
  case events =>
    refine ⟨digits, hdigits, ?_⟩
    simp only [trailerTick_eq, hover]
    simp only [ringdebTick_eq, itimerTick_eq]
  all_goals simp only [trailerTick_eq, ringdebTick_eq, itimerTick_eq]

/-! ## Requests -/

/-- `as_channel_hangup`, as far as it concerns the line. -/
def hangup (chan : LineChan) : LineChan :=
  let chan := { chan with kewlonhook := false }
  let chan :=
    if chan.sig = .fxsls ∨ chan.sig = .fxsks ∨ chan.sig = .fxsgs then
      { chan with ringdebtimer := asRingDebounceTime }
    else chan
  let chan :=
    if chan.sig = .fxoks ∧ chan.txstate ≠ .onhook then chan.rbsSethook .kewl .kewl asKewltime
    else chan.rbsSethook .onhook .onhook 0
  { chan with cadencepos := 0 }

end LineChan

/-- `AS_ONHOOK` to `AS_RINGOFF` -/
inductive HookRequest
  | onhook
  | offhook
  | wink
  | flash
  | start
  | ring
  | ringoff
deriving DecidableEq

namespace LineChan

/-- `__as_channel_hook_ioctl`, for a request that may be unknown. A process that waits for the
end of a wink or a flash gets `delay` from `as_schedule_delay`. -/
def hookIoctl (delay : ℤ) (request : Option HookRequest) (chan : LineChan) : ℤ × LineChan :=
  if chan.clear then (-einval, chan)
  else
    match request with
    | some .onhook => (0, chan.hangup)
    | some .offhook =>
        if chan.txstate = .kewl ∨ chan.txstate = .afterkewl then (-ebusy, chan)
        else (0, chan.rbsSethook .offhook .debounce chan.debouncetime)
    | some .ring | some .start =>
        if chan.txstate ≠ .onhook then (-ebusy, chan)
        else
          let chan :=
            if chan.sig.isFxo then
              { chan with cadencepos := 0 }.rbsSethook .start .ringon (chan.ringcadence 0)
            else chan.rbsSethook .start .start chan.starttime
          (if chan.nonblock then -einprogress else 0, chan)
    | some .wink =>
        if chan.txstate ≠ .onhook then (-ebusy, chan)
        else
          (if chan.nonblock then -einprogress else delay,
            chan.rbsSethook .onhook .prewink chan.prewinktime)
    | some .flash =>
        if chan.txstate ≠ .offhook then (-ebusy, chan)
        else
          (if chan.nonblock then -einprogress else delay,
            chan.rbsSethook .offhook .preflash chan.preflashtime)
    | some .ringoff => (0, chan.rbsSethook .onhook .onhook 0)
    | none => (-einval, chan)

end LineChan

inductive LineInput
  | transmit
  | receive
  | report (rxsig : RxSig)
  | request (request : Option HookRequest) (delay : ℤ)
deriving DecidableEq

namespace LineChan

def step (arm : Bool) (zone : ZoneRing) : LineInput → LineChan → Option LineChan
  | .transmit, chan => some (chan.transmitTick arm zone)
  | .receive, chan => some (chan.receiveTick arm)
  | .report rxsig, chan => some (chan.hooksigPvt rxsig)
  | .request request delay, chan => some (chan.hookIoctl delay request).2

end LineChan

end Slic
end WirelessMesh
