import WirelessMesh.Lib.Runs
import WirelessMesh.Slic.Transmit
import Mathlib.Algebra.Order.Ring.Int
import Mathlib.Tactic.Ring

/-!
# Dialling

A dial string is put into the channel by a request, and the transmit interrupt takes one
character after the other out of it. Each character has a tone, and the tone of a digit is
followed by a silence. A request may come at any moment: it may add to the string, put
another one in its place or end the dialling.
-/

namespace WirelessMesh
namespace Slic

/-! ## What is heard on the line -/

/-- The tone of a character, not the silence after it and not a tone of the zone. -/
def ToneRef.ofDial : ToneRef → Bool
  | .dtmf _ | .pause => true
  | .silence | .zone _ _ => false

/-- What a listener on the line notes: the tones of characters in the order in which they
were started, and what was sent since the last of them was started. -/
structure Heard where
  started : List ToneRef
  since : List Segment

/-- A part of a chunk is sent. The line card is set up for a tone (`slic_play_tone`) in front
of its first sample. -/
def Heard.hear (heard : Heard) (chan : ToneChan) (seg : Segment) : Heard :=
  match seg.source with
  | .tone t =>
      if t.ofDial ∧ chan.tonep = 0 then ⟨heard.started ++ [t], [seg]⟩
      else { heard with since := heard.since ++ [seg] }
  | _ => { heard with since := heard.since ++ [seg] }

def hearLoop (arm : Bool) (tones : ToneRef → Option Tone) :
    ℕ → ToneChan → ℤ → Heard → Heard
  | 0, _, _, heard => heard
  | fuel + 1, chan, bytes, heard =>
      if bytes = 0 then heard
      else
        match getbufRound arm tones chan bytes with
        | some (.fill chan' seg rest) => hearLoop arm tones fuel chan' rest (heard.hear chan seg)
        | _ => heard

/-! ## Runs -/

/-- The characters of a request. The last byte of its field is made the end mark. -/
def dialText (dialstr : List Char) : List Char := dialstr.take (asMaxDtmfBuf - 1)

/-- The requests, the interrupt, and what else may happen to the line: it may begin or cease
to ring, and its events are queued and read. -/
inductive DialInput
  | replace (c : Char) (rest : List Char)
  | append (dialstr : List Char)
  | cancel
  | tick
  | other (ringOn : Bool) (firstDialingTimer : ℤ) (events : EventQueue)

/-- A channel with what was heard of it. `owed` are the characters that were requested: the
ones that were started, then the ones that have not been discarded. -/
structure DialLog where
  chan : ToneChan
  heard : Heard
  owed : List Char

namespace DialLog

/-- The characters that were started, out of those that were owed. -/
def kept (log : DialLog) : List Char := log.owed.take log.heard.started.length

def step (arm : Bool) (slab : ℕ) (zone : ZoneTones) : DialInput → DialLog → Option DialLog
  | .replace c rest, log =>
      some
        { log with
          chan := (ctlSetDialingString (some .replace) (c :: rest) log.chan).2
          owed := log.kept ++ dialText (c :: rest) }
  | .append dialstr, log =>
      let (rv, chan) := ctlSetDialingString (some .append) dialstr log.chan
      some { log with chan, owed := if rv = -ebusy then log.owed else log.owed ++ dialText dialstr }
  | .cancel, log =>
      some
        { log with
          chan := (ctlSetDialingString (some .cancel) [] log.chan).2
          owed := log.kept }
  | .tick, log =>
      let rounds := asChunksize arm
      (channelOutGetbufChunk arm (toneAt slab zone) rounds log.chan).map fun r =>
        { log with
          chan := r.1
          heard := hearLoop arm (toneAt slab zone) rounds log.chan (asChunksize arm) log.heard }
  | .other ringOn firstDialingTimer events, log =>
      some
        { log with
          chan :=
            { log.chan with
              ringOn, firstDialingTimer
              toChanBufs := { log.chan.toChanBufs with events } } }

/-- The tones that were started are those of the first characters that are owed, in order and
each once. -/
def InOrder (log : DialLog) : Prop := log.heard.started <+: log.owed.map zoneGetDtmfTone

def AllStarted (log : DialLog) : Prop := log.heard.started = log.owed.map zoneGetDtmfTone

end DialLog

def dialLength : ToneRef → ℤ
  | .pause => pauseLength
  | _ => dtmfLength

def toneChunks (arm : Bool) (t : ToneRef) : ℕ := (dialLength t / asChunksize arm).toNat

def toneSegment (arm : Bool) (t : ToneRef) : Segment := ⟨.tone t, asChunksize arm⟩

def wholeTone (arm : Bool) (t : ToneRef) : List Segment :=
  List.replicate (toneChunks arm t) (toneSegment arm t)

/-- What is sent for a character: its tone, and the silence after a digit. -/
def dialSound (arm : Bool) (c : Char) : List Segment :=
  match zoneGetDtmfTone c with
  | .dtmf i => wholeTone arm (.dtmf i) ++ wholeTone arm .silence
  | t => wholeTone arm t

def DialInput.eventsOf (input : DialInput) (log : DialLog) : EventQueue :=
  match input with
  | .other _ _ events => events
  | _ => log.chan.events

def DialInput.dials : DialInput → Bool
  | .replace _ _ | .append _ => true
  | .cancel | .tick | .other _ _ _ => false

/-- A period of dialling ends with the step, and not because it is cancelled. -/
structure DialEnds (input : DialInput) (log log' : DialLog) : Prop where
  dialed : log.chan.dialing = true ∨ input.dials = true
  uncancelled : input ≠ .cancel
  stopped : log'.chan.dialing = false

/-- What a step does about `AS_EVENT_DIALCOMPLETE`: it asks for the event exactly when a
period of dialling ends. Then every tone was started, and the last one was sent to its end
with its silence. -/
structure Completes (arm : Bool) (input : DialInput) (log log' : DialLog) : Prop where
  asked : DialEnds input log log' →
    log'.chan.events = channelQevent (input.eventsOf log) asEventDialcomplete
  quiet : ¬DialEnds input log log' → log'.chan.events = input.eventsOf log
  allStarted : DialEnds input log log' → log'.AllStarted
  lastSent : DialEnds input log log' → log.chan.dialing = true →
    ∃ c, log'.owed.getLast? = some c ∧ log'.heard.since = dialSound arm c

/-- No write buffer to send, nothing to be dialled, and at most a tone of the zone. A buffer
that is written before would be sent first, and the tones after it. -/
structure Resting (chan : ToneChan) : Prop where
  idle : ¬chan.sending
  dialing : chan.dialing = false
  txdialbuf : chan.txdialbuf = []
  curtone : chan.curtone = none ∨ ∃ slab i, chan.curtone = some (.zone slab i)

/-- How far the sound of a character has come, with the tone that is played and its
position. -/
inductive Sounding (arm : Bool) (c : Char) : List Segment → ToneRef → ℤ → Prop
  | tone (j : ℕ) (hj : j < toneChunks arm (zoneGetDtmfTone c)) :
      Sounding arm c (List.replicate j (toneSegment arm (zoneGetDtmfTone c)))
        (zoneGetDtmfTone c) (asChunksize arm * j)
  | silence (i : Fin 16) (hi : zoneGetDtmfTone c = .dtmf i) (j : ℕ)
      (hj : j < toneChunks arm .silence) :
      Sounding arm c (wholeTone arm (.dtmf i) ++ List.replicate j (toneSegment arm .silence))
        .silence (asChunksize arm * j)

/-- A channel that plays a tone of a character and has others to dial. -/
structure DialsOn (chan : ToneChan) (t : ToneRef) (p : ℤ) : Prop where
  idle : ¬chan.sending
  dialing : chan.dialing = true
  curtone : chan.curtone = some t
  tonep : chan.tonep = p

inductive Stage (arm : Bool) (log : DialLog) : Prop
  | resting (hrest : Resting log.chan) (hall : log.AllStarted)
  | next (done : List Char) (c : Char) (hdials : DialsOn log.chan (zoneGetDtmfTone c) 0)
      (howed : log.owed = done ++ c :: log.chan.txdialbuf)
      (hstarted : log.heard.started = done.map zoneGetDtmfTone)
  | sounding (done : List Char) (c : Char) (t : ToneRef) (p : ℤ) (hdials : DialsOn log.chan t p)
      (howed : log.owed = done ++ c :: log.chan.txdialbuf)
      (hstarted : log.heard.started = (done ++ [c]).map zoneGetDtmfTone)
      (hbegun : log.heard.since ≠ [])
      (hsounding : Sounding arm c log.heard.since t p)

/-! ## One interrupt -/

section Tick

variable {arm : Bool} {slab : ℕ} {zone : ZoneTones} {chan : ToneChan} {t : ToneRef} {p : ℤ}

theorem dspPlayDtmf_cons {c : Char} {rest : List Char}
    (h : chan.txdialbuf = c :: rest) :
    dspPlayDtmf chan =
      { chan with txdialbuf := rest, curtone := some (zoneGetDtmfTone c), tonep := 0 } := by
  simp only [dspPlayDtmf, h]

theorem dspPlayDtmf_nil (h : chan.txdialbuf = []) :
    dspPlayDtmf chan =
      { chan with
        dialing := false
        toChanBufs := { chan.toChanBufs with
          events := channelQevent chan.events asEventDialcomplete } } := by
  simp only [dspPlayDtmf, h]

theorem zoneGetDtmfTone_cases (c : Char) :
    (∃ i, zoneGetDtmfTone c = .dtmf i) ∨ zoneGetDtmfTone c = .pause := by
  unfold zoneGetDtmfTone
  split
  all_goals first
    | exact Or.inl ⟨_, rfl⟩
    | exact Or.inr rfl

theorem ofDial_zoneGetDtmfTone (c : Char) : (zoneGetDtmfTone c).ofDial = true := by
  obtain ⟨i, hi⟩ | hi := zoneGetDtmfTone_cases c
  · rw [hi]
    rfl
  · rw [hi]
    rfl

theorem dialLength_cases (t : ToneRef) :
    dialLength t = dtmfLength ∨ dialLength t = pauseLength := by
  cases t with
  | pause => exact Or.inr rfl
  | _ => exact Or.inl rfl

theorem chunksize_mul_toneChunks (arm : Bool) (t : ToneRef) :
    asChunksize arm * toneChunks arm t = dialLength t := by
  unfold toneChunks
  obtain h | h := dialLength_cases t <;> rw [h] <;> cases arm <;> decide

theorem dialLength_lt (t : ToneRef) : dialLength t < 2 ^ 31 := by
  obtain h | h := dialLength_cases t <;> rw [h] <;> decide

/-- A tone that is dialled is static, and its length does not depend on the zone. -/
theorem toneAt_dialed {next : Option ToneRef} (slab : ℕ) (zone : ZoneTones)
    (ht : (∃ i, t = .dtmf i ∧ next = some .silence) ∨ t = .silence ∧ next = none ∨
      t = .pause ∧ next = none) :
    toneAt slab zone t = some ⟨dialLength t, next⟩ := by
  obtain ⟨i, rfl, rfl⟩ | ⟨rfl, rfl⟩ | ⟨rfl, rfl⟩ := ht <;> rfl

/-- One chunk of a tone, while the line does not ring and the pause after the first ring is
over. -/
theorem DialsOn.round {next : Option ToneRef} {j : ℕ} (h : DialsOn chan t (asChunksize arm * j))
    (hring : chan.ringOn = false) (htimer : ¬0 < chan.firstDialingTimer)
    (htone : toneAt slab zone t = some ⟨dialLength t, next⟩) (hj : j < toneChunks arm t) :
    getbufRound arm (toneAt slab zone) chan (asChunksize arm) =
      some (.fill
        (if j + 1 < toneChunks arm t then
          { chan with firstDialingTimer := 0, tonep := asChunksize arm * (j + 1 : ℕ) }
        else
          nextTone { chan with firstDialingTimer := 0 } ⟨dialLength t, next⟩)
        (toneSegment arm t) 0) := by
  obtain ⟨hpos, -⟩ := chunk_bounds arm
  have hlt := dialLength_lt t
  have hstep : asChunksize arm * ((j + 1 : ℕ) : ℤ) = asChunksize arm * j + asChunksize arm := by
    push_cast
    ring
  have hnonneg : 0 ≤ asChunksize arm * (j : ℤ) := mul_nonneg hpos.le (Int.natCast_nonneg j)
  have hend : dialLength t ≤ asChunksize arm * ((j + 1 : ℕ) : ℤ) ↔ ¬j + 1 < toneChunks arm t := by
    rw [← chunksize_mul_toneChunks arm t, mul_le_mul_iff_right₀ hpos]
    omega
  have hle : asChunksize arm * ((j + 1 : ℕ) : ℤ) ≤ dialLength t := by
    rw [← chunksize_mul_toneChunks arm t, mul_le_mul_iff_right₀ hpos]
    omega
  have hfirst : cInt (dialLength t - asChunksize arm * j) =
      some (dialLength t - asChunksize arm * j) := cInt_of_bounds (by omega) (by omega)
  have hmin : min (dialLength t - asChunksize arm * (j : ℤ)) (asChunksize arm) =
      asChunksize arm := min_eq_right (by omega)
  have hnext : cInt (asChunksize arm * j + asChunksize arm) =
      some (asChunksize arm * ((j + 1 : ℕ) : ℤ)) := by
    rw [← hstep]
    exact cInt_of_bounds (by omega) (by omega)
  have hrest : cInt (asChunksize arm - asChunksize arm) = some 0 := by
    rw [sub_self]
    decide
  simp only [getbufRound, h.idle, h.curtone, h.dialing, hring, htimer, htone, toneRound, h.tonep,
    hfirst, hmin, hnext, hrest, hend, if_false, if_true, and_false, Bool.false_eq_true,
    Option.bind_eq_bind, Option.bind_some, pure]
  split_ifs <;> rfl

/-- What one chunk does to a character: its sound goes on, or it has come to its end and the
next character is taken. -/
def Advances (arm : Bool) (c : Char) (since : List Segment) (chan chan' : ToneChan) : Prop :=
  (∃ t p, chan' = { chan with firstDialingTimer := 0, curtone := some t, tonep := p } ∧
      Sounding arm c since t p) ∨
    since = dialSound arm c ∧
      chan' = dspPlayDtmf { chan with firstDialingTimer := 0, curtone := none, tonep := 0 }

theorem nextTone_of_some {next : ToneRef} (l : ℤ) :
    nextTone chan ⟨l, some next⟩ = { chan with curtone := some next, tonep := 0 } := by
  simp [nextTone]

theorem nextTone_of_none (l : ℤ) (h : chan.dialing = true) :
    nextTone chan ⟨l, none⟩ = dspPlayDtmf { chan with curtone := none, tonep := 0 } := by
  simp [nextTone, h]

theorem Sounding.round {c : Char} {since : List Segment} (hs : Sounding arm c since t p)
    (slab : ℕ) (zone : ZoneTones) (h : DialsOn chan t p) (hring : chan.ringOn = false)
    (htimer : ¬0 < chan.firstDialingTimer) :
    ∃ chan', getbufRound arm (toneAt slab zone) chan (asChunksize arm) =
        some (.fill chan' (toneSegment arm t) 0) ∧
      Advances arm c (since ++ [toneSegment arm t]) chan chan' := by
  cases hs with
  | tone j hj =>
      rw [← List.replicate_succ']
      obtain ⟨i, hi⟩ | hi := zoneGetDtmfTone_cases c
      · have htone := toneAt_dialed slab zone (.inl ⟨i, hi, rfl⟩)
        refine ⟨_, h.round hring htimer htone hj, .inl ?_⟩
        by_cases hmore : j + 1 < toneChunks arm (zoneGetDtmfTone c)
        · rw [if_pos hmore]
          exact ⟨_, _, by rw [← h.curtone], .tone (j + 1) hmore⟩
        · rw [if_neg hmore, nextTone_of_some]
          refine ⟨_, _, rfl, ?_⟩
          have hlast : j + 1 = toneChunks arm (zoneGetDtmfTone c) := by omega
          have hsilence : Sounding arm c (wholeTone arm (.dtmf i) ++ List.replicate 0 _) .silence
              (asChunksize arm * (0 : ℕ)) := .silence i hi 0 (by cases arm <;> decide)
          simpa [hlast, hi, wholeTone] using hsilence
      · have htone := toneAt_dialed slab zone (.inr (.inr ⟨hi, rfl⟩))
        refine ⟨_, h.round hring htimer htone hj, ?_⟩
        by_cases hmore : j + 1 < toneChunks arm (zoneGetDtmfTone c)
        · rw [if_pos hmore]
          exact .inl ⟨_, _, by rw [← h.curtone], .tone (j + 1) hmore⟩
        · rw [if_neg hmore]
          refine .inr ⟨?_, nextTone_of_none _ h.dialing⟩
          have hlast : j + 1 = toneChunks arm (zoneGetDtmfTone c) := by omega
          simp [hlast, hi, dialSound, wholeTone]
  | silence i hi j hj =>
      rw [List.append_assoc, ← List.replicate_succ']
      have htone := toneAt_dialed slab zone (.inr (.inl ⟨rfl, rfl⟩))
      refine ⟨_, h.round hring htimer htone hj, ?_⟩
      by_cases hmore : j + 1 < toneChunks arm .silence
      · rw [if_pos hmore]
        exact .inl ⟨_, _, by rw [← h.curtone], .silence i hi (j + 1) hmore⟩
      · rw [if_neg hmore]
        refine .inr ⟨?_, nextTone_of_none _ h.dialing⟩
        have hlast : j + 1 = toneChunks arm .silence := by omega
        simp [hlast, hi, dialSound, wholeTone]

end Tick

/-! ## One step -/

section Step

variable {arm : Bool} {slab : ℕ} {zone : ZoneTones} {log log' : DialLog} {input : DialInput}

theorem completes_of_not_ends (h : ¬DialEnds input log log')
    (hevents : log'.chan.events = input.eventsOf log) : Completes arm input log log' where
  asked := fun hends => absurd hends h
  quiet := fun _ => hevents
  allStarted := fun hends => absurd hends h
  lastSent := fun hends => absurd hends h

theorem completes_of_dialing (h : log'.chan.dialing = true)
    (hevents : log'.chan.events = input.eventsOf log) : Completes arm input log log' := by
  refine completes_of_not_ends ?_ hevents
  intro hends
  rw [hends.stopped] at h
  cases h

theorem exists_rounds (arm : Bool) : ∃ k, asChunksize arm = k + 1 := by
  cases arm
  · exact ⟨7, rfl⟩
  · exact ⟨31, rfl⟩

theorem step_tick_of_fill {chan : ToneChan} {seg : Segment}
    (h : getbufRound arm (toneAt slab zone) log.chan (asChunksize arm) =
      some (.fill chan seg 0)) :
    log.step arm slab zone .tick =
      some { log with chan, heard := log.heard.hear log.chan seg } := by
  obtain ⟨k, hk⟩ := exists_rounds arm
  have hpos := (chunk_bounds arm).1.ne'
  have hhear : ∀ n chan heard, hearLoop arm (toneAt slab zone) n chan 0 heard = heard := by
    intro n
    cases n <;> simp [hearLoop]
  simp only [DialLog.step, channelOutGetbufChunk]
  generalize (asChunksize arm : ℤ) = bytes at h hpos ⊢
  simp [hk, getbufLoop_fill hpos h, getbufLoop_zero_bytes, hearLoop, hpos, h, hhear]

theorem step_tick_of_stop {chan : ToneChan}
    (h : getbufRound arm (toneAt slab zone) log.chan (asChunksize arm) = some (.stop chan)) :
    log.step arm slab zone .tick = some { log with chan } := by
  obtain ⟨k, hk⟩ := exists_rounds arm
  have hpos := (chunk_bounds arm).1.ne'
  simp only [DialLog.step, channelOutGetbufChunk]
  generalize (asChunksize arm : ℤ) = bytes at h hpos ⊢
  simp [hk, getbufLoop, hearLoop, hpos, h]

theorem stage_of_advances {done : List Char} {c : Char} {t : ToneRef} {p : ℤ} {chan : ToneChan}
    {heard : Heard} (hdials : DialsOn log.chan t p)
    (howed : log.owed = done ++ c :: log.chan.txdialbuf)
    (hstarted : heard.started = (done ++ [c]).map zoneGetDtmfTone) (hbegun : heard.since ≠ [])
    (h : Advances arm c heard.since log.chan chan) :
    Stage arm { log with chan, heard } ∧ Completes arm .tick log { log with chan, heard } := by
  obtain ⟨t', p', rfl, hsounding⟩ | ⟨hend, rfl⟩ := h
  · refine ⟨.sounding done c t' p' ⟨hdials.idle, hdials.dialing, rfl, rfl⟩ howed hstarted hbegun
      hsounding, completes_of_dialing hdials.dialing rfl⟩
  · cases hbuf : log.chan.txdialbuf with
    | nil =>
        rw [hbuf] at howed
        have hall : DialLog.AllStarted
            { log with
              chan := dspPlayDtmf
                { log.chan with firstDialingTimer := 0, curtone := none, tonep := 0 }
              heard } := by
          unfold DialLog.AllStarted
          rw [hstarted, howed]
        simp only [dspPlayDtmf, hbuf] at hall ⊢
        refine ⟨.resting ⟨hdials.idle, rfl, rfl, .inl rfl⟩ hall, ?_⟩
        exact
          { asked := fun _ => rfl
            quiet := fun hnot => absurd ⟨.inl hdials.dialing, nofun, rfl⟩ hnot
            allStarted := fun _ => hall
            lastSent := fun _ _ => ⟨c, by simp [howed], hend⟩ }
    | cons c' rest =>
        simp only [dspPlayDtmf]
        refine ⟨.next (done ++ [c]) c' ⟨hdials.idle, hdials.dialing, rfl, rfl⟩ ?_ hstarted,
          completes_of_dialing hdials.dialing rfl⟩
        rw [howed, hbuf, List.append_assoc]
        rfl

theorem hear_begin (heard : Heard) {chan : ToneChan} {t : ToneRef} (ht : t.ofDial = true)
    (hp : chan.tonep = 0) :
    heard.hear chan (toneSegment arm t) = ⟨heard.started ++ [t], [toneSegment arm t]⟩ := by
  simp [Heard.hear, toneSegment, ht, hp]

theorem hear_going (heard : Heard) {chan : ToneChan} {t : ToneRef}
    (h : ¬(t.ofDial = true ∧ chan.tonep = 0)) :
    heard.hear chan (toneSegment arm t) =
      { heard with since := heard.since ++ [toneSegment arm t] } := by
  simp only [Heard.hear, toneSegment, h, if_false]

theorem toneChunks_pos (arm : Bool) (t : ToneRef) : 0 < toneChunks arm t := by
  unfold toneChunks
  obtain h | h := dialLength_cases t <;> rw [h] <;> cases arm <;> decide

theorem Sounding.start (arm : Bool) (c : Char) : Sounding arm c [] (zoneGetDtmfTone c) 0 := by
  have hstart : Sounding arm c (List.replicate 0 _) _ (asChunksize arm * (0 : ℕ)) :=
    .tone 0 (toneChunks_pos arm (zoneGetDtmfTone c))
  simpa using hstart

theorem Sounding.not_start {c : Char} {since : List Segment} {t : ToneRef} {p : ℤ}
    (h : Sounding arm c since t p) (hbegun : since ≠ []) : ¬(t.ofDial = true ∧ p = 0) := by
  rintro ⟨hdial, hzero⟩
  cases h with
  | tone j hj =>
      obtain hchunk | hj := mul_eq_zero.mp hzero
      · exact (chunk_bounds arm).1.ne' hchunk
      · obtain rfl : j = 0 := by omega
        exact hbegun rfl
  | silence => cases hdial

/-- The line rings, or the pause after the first ring is not over. -/
def Waits (chan : ToneChan) : Prop := chan.ringOn = true ∨ 0 < chan.firstDialingTimer

/-- The samples from a position in a tone to the end of the character's sound. -/
def soundLeft : ToneRef → ℤ → ℤ
  | .dtmf _, p => dtmfLength + dtmfLength - p
  | t, p => dialLength t - p

/-- A bound for the interrupts that a channel needs to the end of its dialling. -/
def dialMeasure (chan : ToneChan) : ℕ :=
  chan.firstDialingTimer.toNat + 4001 * chan.txdialbuf.length +
    match chan.curtone with
    | some t => (soundLeft t chan.tonep).toNat
    | none => 0

theorem wholeTone_length (arm : Bool) (t : ToneRef) :
    (wholeTone arm t).length = toneChunks arm t :=
  List.length_replicate

/-- The samples that are left are the chunks of the sound that have not been sent. -/
theorem Sounding.soundLeft_eq {c : Char} {since : List Segment} {t : ToneRef} {p : ℤ}
    (h : Sounding arm c since t p) :
    since.length < (dialSound arm c).length ∧
      soundLeft t p = asChunksize arm * ((dialSound arm c).length - since.length) := by
  cases h with
  | tone j hj =>
      have hall := chunksize_mul_toneChunks arm (zoneGetDtmfTone c)
      obtain ⟨i, hi⟩ | hi := zoneGetDtmfTone_cases c
      · have hsilence := chunksize_mul_toneChunks arm .silence
        rw [hi] at hj hall ⊢
        simp only [dialSound, hi, List.length_append, wholeTone_length, List.length_replicate]
        refine ⟨by omega, ?_⟩
        push_cast
        rw [mul_sub, mul_add, hall, hsilence]
        rfl
      · rw [hi] at hj hall ⊢
        simp only [dialSound, hi, wholeTone_length, List.length_replicate]
        refine ⟨hj, ?_⟩
        rw [mul_sub, hall]
        rfl
  | silence i hi j hj =>
      have hsilence := chunksize_mul_toneChunks arm .silence
      simp only [dialSound, hi, List.length_append, wholeTone_length, List.length_replicate]
      refine ⟨by omega, ?_⟩
      push_cast
      rw [add_sub_add_left_eq_sub, mul_sub, hsilence]
      rfl

theorem soundLeft_start_le (c : Char) : soundLeft (zoneGetDtmfTone c) 0 ≤ 4000 := by
  obtain ⟨i, hi⟩ | hi := zoneGetDtmfTone_cases c
  · rw [hi]
    exact (by decide : dtmfLength + dtmfLength - 0 ≤ 4000)
  · rw [hi]
    decide

theorem Advances.measure {c : Char} {since : List Segment} {t : ToneRef} {p : ℤ}
    {chan chan' : ToneChan} (hs : Sounding arm c since t p) (hdials : DialsOn chan t p)
    (h : Advances arm c (since ++ [toneSegment arm t]) chan chan') :
    chan'.ringOn = chan.ringOn ∧ dialMeasure chan' < dialMeasure chan := by
  obtain ⟨hpos, -⟩ := chunk_bounds arm
  obtain ⟨hless, hleft⟩ := hs.soundLeft_eq
  have hbefore : dialMeasure chan = chan.firstDialingTimer.toNat +
      4001 * chan.txdialbuf.length + (soundLeft t p).toNat := by
    simp [dialMeasure, hdials.curtone, hdials.tonep]
  have hleftpos : 0 < soundLeft t p := by
    rw [hleft]
    exact mul_pos hpos (by omega)
  obtain ⟨t', p', rfl, hs'⟩ | ⟨-, rfl⟩ := h
  · refine ⟨rfl, ?_⟩
    obtain ⟨-, hleft'⟩ := hs'.soundLeft_eq
    have hstep : soundLeft t' p' = soundLeft t p - asChunksize arm := by
      rw [hleft, hleft', List.length_append, List.length_singleton]
      push_cast
      ring
    have hafter : dialMeasure
        { chan with firstDialingTimer := 0, curtone := some t', tonep := p' } =
          4001 * chan.txdialbuf.length + (soundLeft t' p').toNat := by
      simp [dialMeasure]
    omega
  · cases hbuf : chan.txdialbuf with
    | nil =>
        rw [dspPlayDtmf_nil rfl, hbefore]
        refine ⟨rfl, ?_⟩
        simp only [dialMeasure, List.length_nil]
        omega
    | cons c' rest =>
        have hstart := soundLeft_start_le c'
        rw [dspPlayDtmf_cons rfl, hbefore, hbuf]
        refine ⟨rfl, ?_⟩
        simp only [dialMeasure, List.length_cons]
        omega

theorem DialsOn.stop {t : ToneRef} {p : ℤ} (h : DialsOn log.chan t p) (slab : ℕ) (zone : ZoneTones)
    (hwait : Waits log.chan) :
    ∃ timer, log.step arm slab zone .tick =
        some { log with chan := { log.chan with firstDialingTimer := timer } } ∧
      (log.chan.ringOn = false → timer.toNat < log.chan.firstDialingTimer.toNat) := by
  by_cases hring : log.chan.ringOn = true
  · have hround : getbufRound arm (toneAt slab zone) log.chan (asChunksize arm) =
        some (.stop log.chan) := by
      simp [getbufRound, h.idle, h.curtone, hring]
    refine ⟨log.chan.firstDialingTimer, step_tick_of_stop hround, ?_⟩
    simp [hring]
  · have htimer : 0 < log.chan.firstDialingTimer := hwait.resolve_left hring
    have hpos := (chunk_bounds arm).1
    refine ⟨log.chan.firstDialingTimer - asChunksize arm, step_tick_of_stop ?_, ?_⟩
    · simp [getbufRound, h.idle, h.curtone, hring, h.dialing, htimer]
    · intro _
      omega

/-- While the line does not ring, the end of the dialling comes nearer. -/
def Nearer (chan chan' : ToneChan) : Prop :=
  chan.ringOn = false → chan'.ringOn = false ∧ dialMeasure chan' < dialMeasure chan

theorem nearer_of_timer {chan : ToneChan} {timer : ℤ}
    (h : chan.ringOn = false → timer.toNat < chan.firstDialingTimer.toNat) :
    Nearer chan { chan with firstDialingTimer := timer } := by
  intro hring
  have hlt := h hring
  refine ⟨hring, ?_⟩
  simp only [dialMeasure]
  omega

theorem Stage.tick_of_dialing (h : Stage arm log) (slab : ℕ) (zone : ZoneTones)
    (hdialing : log.chan.dialing = true) :
    ∃ log', log.step arm slab zone .tick = some log' ∧ Nearer log.chan log'.chan ∧
      Stage arm log' ∧ Completes arm .tick log log' := by
  by_cases hwait : Waits log.chan
  · cases h with
    | resting hrest =>
        rw [hrest.dialing] at hdialing
        cases hdialing
    | next done c hdials howed hstarted =>
        obtain ⟨timer, hstep, htimer⟩ := hdials.stop slab zone hwait
        exact ⟨_, hstep, nearer_of_timer htimer,
          .next done c ⟨hdials.idle, hdials.dialing, hdials.curtone, hdials.tonep⟩ howed hstarted,
          completes_of_dialing hdialing rfl⟩
    | sounding done c t p hdials howed hstarted hbegun hsounding =>
        obtain ⟨timer, hstep, htimer⟩ := hdials.stop slab zone hwait
        exact ⟨_, hstep, nearer_of_timer htimer, .sounding done c t p
          ⟨hdials.idle, hdials.dialing, hdials.curtone, hdials.tonep⟩ howed hstarted hbegun
          hsounding, completes_of_dialing hdialing rfl⟩
  · obtain ⟨hring, htimer⟩ := not_or.mp hwait
    rw [Bool.not_eq_true] at hring
    cases h with
    | resting hrest =>
        rw [hrest.dialing] at hdialing
        cases hdialing
    | next done c hdials howed hstarted =>
        have hsounding := Sounding.start arm c
        obtain ⟨chan, hround, hadvances⟩ := hsounding.round slab zone hdials hring htimer
        obtain ⟨hring', hless⟩ := Advances.measure hsounding hdials hadvances
        refine ⟨_, step_tick_of_fill hround, fun _ => ⟨hring'.trans hring, hless⟩, ?_⟩
        rw [hear_begin _ (ofDial_zoneGetDtmfTone c) hdials.tonep]
        refine stage_of_advances hdials howed ?_ (List.cons_ne_nil _ _) hadvances
        simp [hstarted]
    | sounding done c t p hdials howed hstarted hbegun hsounding =>
        obtain ⟨chan, hround, hadvances⟩ := hsounding.round slab zone hdials hring htimer
        obtain ⟨hring', hless⟩ := Advances.measure hsounding hdials hadvances
        refine ⟨_, step_tick_of_fill hround, fun _ => ⟨hring'.trans hring, hless⟩, ?_⟩
        rw [hear_going _ (hdials.tonep ▸ hsounding.not_start hbegun)]
        exact stage_of_advances hdials howed hstarted (by simp) hadvances

theorem toneRound_fill {chan chan' : ToneChan} {t : ToneRef} {tone : Tone} {bytes rest : ℤ}
    {seg : Segment} (hdialing : chan.dialing = false)
    (h : toneRound chan t tone bytes = some (.fill chan' seg rest)) :
    seg.source = .tone t ∧ ∃ tonep,
      (chan' = { chan with tonep } ∨ chan' = { chan with tonep, curtone := tone.next }) := by
  simp only [toneRound, Option.bind_eq_bind, Option.bind_eq_some_iff, pure, Option.some.injEq,
    Round.fill.injEq] at h
  obtain ⟨left, -, tonep, -, rest', -, hchan, rfl, -⟩ := h
  refine ⟨rfl, ?_⟩
  split_ifs at hchan with hend
  · refine ⟨0, .inr ?_⟩
    rw [← hchan]
    simp [nextTone, hdialing]
  · exact ⟨tonep, .inl hchan.symm⟩

theorem toneAt_zone_next {s i : ℕ} {tone : Tone} (h : toneAt slab zone (.zone s i) = some tone) :
    ∃ j, tone.next = some (.zone slab j) := by
  simp only [toneAt] at h
  split_ifs at h
  obtain ⟨t, -, rfl⟩ := Option.map_eq_some_iff.mp h
  exact ⟨_, rfl⟩

/-- A round of a channel at rest: it stays so, and no tone of a character is heard. -/
theorem Resting.round {chan chan' : ToneChan} {bytes rest : ℤ} {seg : Segment} (h : Resting chan)
    (heard : Heard)
    (hround : getbufRound arm (toneAt slab zone) chan bytes = some (.fill chan' seg rest)) :
    Resting chan' ∧ chan'.events = chan.events ∧
      (heard.hear chan seg).started = heard.started := by
  obtain hnone | ⟨s, i, hzone⟩ := h.curtone
  · simp only [getbufRound, h.idle, hnone, if_false, Option.some.injEq, Round.fill.injEq]
      at hround
    obtain ⟨rfl, rfl, -⟩ := hround
    exact ⟨h, rfl, rfl⟩
  · simp only [getbufRound, h.idle, hzone, h.dialing, if_false, Bool.false_eq_true, false_and]
      at hround
    split_ifs at hround
    · cases Option.some.inj hround
    obtain ⟨tone, htone, hround⟩ := Option.bind_eq_some_iff.mp hround
    obtain ⟨hsource, tonep, hchan⟩ := toneRound_fill h.dialing hround
    obtain ⟨j, hnext⟩ := toneAt_zone_next htone
    refine ⟨?_, ?_, ?_⟩
    · obtain rfl | rfl := hchan
      · exact ⟨h.idle, h.dialing, h.txdialbuf, h.curtone⟩
      · exact ⟨h.idle, h.dialing, h.txdialbuf, .inr ⟨slab, j, hnext⟩⟩
    · obtain rfl | rfl := hchan <;> rfl
    · simp [Heard.hear, hsource, ToneRef.ofDial]

theorem Resting.stop {chan chan' : ToneChan} {bytes : ℤ} (h : Resting chan)
    (hround : getbufRound arm (toneAt slab zone) chan bytes = some (.stop chan')) :
    chan' = chan := by
  obtain hnone | ⟨s, i, hzone⟩ := h.curtone
  · simp [getbufRound, h.idle, hnone] at hround
  · simp only [getbufRound, h.idle, hzone, h.dialing, if_false, Bool.false_eq_true, false_and]
      at hround
    split_ifs at hround
    · exact (Round.stop.inj (Option.some.inj hround)).symm
    · obtain ⟨tone, -, hround⟩ := Option.bind_eq_some_iff.mp hround
      simp [toneRound, Option.bind_eq_some_iff] at hround

theorem Resting.loop {rounds : ℕ} {chan chan' : ToneChan} {bytes : ℤ} {segs : List Segment}
    (h : Resting chan) (heard : Heard)
    (hloop : getbufLoop arm (toneAt slab zone) rounds chan bytes = some (chan', segs)) :
    Resting chan' ∧ chan'.events = chan.events ∧
      (hearLoop arm (toneAt slab zone) rounds chan bytes heard).started = heard.started := by
  induction rounds generalizing chan bytes heard segs with
  | zero =>
      unfold getbufLoop at hloop
      split_ifs at hloop
      obtain ⟨rfl, -⟩ := Prod.mk.inj (Option.some.inj hloop)
      exact ⟨h, rfl, rfl⟩
  | succ rounds ih =>
      unfold getbufLoop at hloop
      unfold hearLoop
      by_cases hzero : bytes = 0
      · rw [if_pos hzero] at hloop ⊢
        obtain ⟨rfl, -⟩ := Prod.mk.inj (Option.some.inj hloop)
        exact ⟨h, rfl, rfl⟩
      rw [if_neg hzero] at hloop ⊢
      obtain ⟨round, hround, hloop⟩ := Option.bind_eq_some_iff.mp hloop
      rw [hround]
      cases round with
      | stop chan'' =>
          obtain ⟨rfl, -⟩ := Prod.mk.inj (Option.some.inj hloop)
          obtain rfl := h.stop hround
          exact ⟨h, rfl, rfl⟩
      | fill chan'' seg rest =>
          obtain ⟨⟨chan₃, segs'⟩, hloop', heq⟩ := Option.map_eq_some_iff.mp hloop
          obtain ⟨rfl, -⟩ := Prod.mk.inj heq
          obtain ⟨hrest, hevents, hstarted⟩ := h.round heard hround
          obtain ⟨hrest', hevents', hstarted'⟩ := ih hrest (heard.hear chan seg) hloop'
          exact ⟨hrest', hevents'.trans hevents, hstarted'.trans hstarted⟩

theorem Stage.idle (h : Stage arm log) : ¬log.chan.sending := by
  cases h with
  | resting hrest => exact hrest.idle
  | next _ _ hdials => exact hdials.idle
  | sounding _ _ _ _ hdials => exact hdials.idle

/-- The characters that were started come first, and the others are in the channel. -/
theorem Stage.split (h : Stage arm log) :
    log.heard.started = log.kept.map zoneGetDtmfTone ∧ log.kept <+: log.owed := by
  refine ⟨?_, List.take_prefix _ _⟩
  unfold DialLog.kept
  cases h with
  | resting _ hall =>
      rw [hall, List.length_map, List.take_length]
  | next done c _ howed hstarted =>
      rw [hstarted, howed, List.length_map, List.take_left]
  | sounding done c t p _ howed hstarted =>
      rw [hstarted, howed, List.append_cons done c log.chan.txdialbuf, List.length_map,
        List.take_left]

theorem Stage.inOrder (h : Stage arm log) : log.InOrder := by
  obtain ⟨hstarted, hprefix⟩ := h.split
  unfold DialLog.InOrder
  rw [hstarted]
  exact hprefix.map _

theorem Stage.begin (h : Stage arm log) (c : Char) (rest : List Char) :
    Stage arm
        { log with
          chan := dspPlayDtmf { log.chan with txdialbuf := c :: rest, dialing := true }
          owed := log.kept ++ c :: rest } ∧
      (dspPlayDtmf { log.chan with txdialbuf := c :: rest, dialing := true }).dialing = true ∧
      (dspPlayDtmf { log.chan with txdialbuf := c :: rest, dialing := true }).events =
        log.chan.events := by
  rw [dspPlayDtmf_cons rfl]
  exact ⟨.next log.kept c ⟨h.idle, rfl, rfl, rfl⟩ rfl h.split.1, rfl, rfl⟩

theorem Stage.replace (h : Stage arm log) (c : Char) (rest : List Char)
    (hstep : log.step arm slab zone (.replace c rest) = some log') :
    Stage arm log' ∧ Completes arm (.replace c rest) log log' := by
  obtain rfl := Option.some.inj hstep
  obtain ⟨hstage, hdialing, hevents⟩ := h.begin c (rest.take 254)
  exact ⟨hstage, completes_of_dialing hdialing hevents⟩

theorem Stage.cancel (h : Stage arm log)
    (hstep : log.step arm slab zone .cancel = some log') :
    Stage arm log' ∧ Completes arm .cancel log log' := by
  obtain rfl := Option.some.inj hstep
  refine ⟨.resting ⟨h.idle, rfl, rfl, .inl rfl⟩ h.split.1, completes_of_not_ends ?_ rfl⟩
  exact fun hends => hends.uncancelled rfl

theorem Stage.other (h : Stage arm log) {ringOn : Bool} {timer : ℤ} {events : EventQueue}
    (hstep : log.step arm slab zone (.other ringOn timer events) = some log') :
    Stage arm log' ∧ Completes arm (.other ringOn timer events) log log' := by
  obtain rfl := Option.some.inj hstep
  cases h with
  | resting hrest hall =>
      refine ⟨.resting ⟨hrest.idle, hrest.dialing, hrest.txdialbuf, hrest.curtone⟩ hall,
        completes_of_not_ends ?_ rfl⟩
      intro hends
      have hdialed := hends.dialed
      rw [hrest.dialing] at hdialed
      simp [DialInput.dials] at hdialed
  | next done c hdials howed hstarted =>
      exact ⟨.next done c ⟨hdials.idle, hdials.dialing, hdials.curtone, hdials.tonep⟩ howed
        hstarted, completes_of_dialing hdials.dialing rfl⟩
  | sounding done c t p hdials howed hstarted hbegun hsounding =>
      exact ⟨.sounding done c t p ⟨hdials.idle, hdials.dialing, hdials.curtone, hdials.tonep⟩
        howed hstarted hbegun hsounding, completes_of_dialing hdials.dialing rfl⟩

theorem Stage.append_dialing (h : Stage arm log) (hdialing : log.chan.dialing = true)
    (text : List Char) :
    Stage arm
      { log with
        chan := { log.chan with txdialbuf := log.chan.txdialbuf ++ text, dialing := true }
        owed := log.owed ++ text } := by
  cases h with
  | resting hrest =>
      rw [hrest.dialing] at hdialing
      cases hdialing
  | next done c hdials howed hstarted =>
      refine .next done c ⟨hdials.idle, rfl, hdials.curtone, hdials.tonep⟩ ?_ hstarted
      rw [howed, List.append_assoc]
      rfl
  | sounding done c t p hdials howed hstarted hbegun hsounding =>
      refine .sounding done c t p ⟨hdials.idle, rfl, hdials.curtone, hdials.tonep⟩ ?_ hstarted
        hbegun hsounding
      rw [howed, List.append_assoc]
      rfl

theorem dialText_length (dialstr : List Char) : (dialText dialstr).length < asMaxDtmfBuf := by
  have hle := List.length_take_le (asMaxDtmfBuf - 1) dialstr
  exact hle.trans_lt (by decide)

theorem step_append {dialstr : List Char} {rv : ℤ} {chan : ToneChan}
    (h : ctlSetDialingString (some .append) dialstr log.chan = (rv, chan)) :
    log.step arm slab zone (.append dialstr) =
      some
        { log with
          chan, owed := if rv = -ebusy then log.owed else log.owed ++ dialText dialstr } := by
  simp only [DialLog.step, h]

theorem Stage.resting_of_not_dialing (h : Stage arm log) (hdialing : log.chan.dialing = false) :
    Resting log.chan ∧ log.AllStarted := by
  cases h with
  | resting hrest hall => exact ⟨hrest, hall⟩
  | next _ _ hdials => exact absurd hdials.dialing (by simp [hdialing])
  | sounding _ _ _ _ hdials => exact absurd hdials.dialing (by simp [hdialing])

theorem ctlSetDialingString_append {dialstr : List Char} {chan : ToneChan}
    (hroom : ¬asMaxDtmfBuf ≤ (dialText dialstr).length + chan.txdialbuf.length) :
    ctlSetDialingString (some .append) dialstr chan =
      let chan' := { chan with txdialbuf := chan.txdialbuf ++ dialText dialstr, dialing := true }
      if chan.dialing then (0, chan') else (0, dspPlayDtmf chan') :=
  if_neg hroom

/-- A string that is added to a channel at rest is started; an empty one ends at once. -/
theorem Stage.append_resting (h : Stage arm log) (hdialing : log.chan.dialing = false)
    (dialstr : List Char)
    (hstep : log.step arm slab zone (.append dialstr) = some log') :
    Stage arm log' ∧ Completes arm (.append dialstr) log log' := by
  obtain ⟨hrest, hall⟩ := h.resting_of_not_dialing hdialing
  have hkept : log.kept = log.owed := by
    unfold DialLog.kept
    rw [hall, List.length_map, List.take_length]
  have hroom : ¬asMaxDtmfBuf ≤ (dialText dialstr).length + log.chan.txdialbuf.length := by
    have hlt := dialText_length dialstr
    simpa [hrest.txdialbuf] using hlt
  have hctl : ctlSetDialingString (some .append) dialstr log.chan =
      (0, dspPlayDtmf { log.chan with txdialbuf := dialText dialstr, dialing := true }) := by
    rw [ctlSetDialingString_append hroom]
    simp [hdialing, hrest.txdialbuf]
  rw [step_append hctl, if_neg (by decide)] at hstep
  obtain rfl := Option.some.inj hstep
  cases htext : dialText dialstr with
  | nil =>
      rw [dspPlayDtmf_nil rfl, List.append_nil]
      refine ⟨.resting ⟨hrest.idle, rfl, rfl, hrest.curtone⟩ hall, ?_⟩
      exact
        { asked := fun _ => rfl
          quiet := fun hnot => absurd ⟨.inr rfl, nofun, rfl⟩ hnot
          allStarted := fun _ => hall
          lastSent := fun _ hbefore => absurd hbefore (by simp [hdialing]) }
  | cons c rest =>
      obtain ⟨hstage, hdials, hevents⟩ := h.begin c rest
      rw [hkept] at hstage
      exact ⟨hstage, completes_of_dialing hdials hevents⟩

theorem Stage.append (h : Stage arm log) (dialstr : List Char)
    (hstep : log.step arm slab zone (.append dialstr) = some log') :
    Stage arm log' ∧ Completes arm (.append dialstr) log log' := by
  cases hdialing : log.chan.dialing with
  | false => exact h.append_resting hdialing dialstr hstep
  | true =>
      by_cases hbusy : asMaxDtmfBuf ≤ (dialText dialstr).length + log.chan.txdialbuf.length
      · have hctl : ctlSetDialingString (some .append) dialstr log.chan = (-ebusy, log.chan) :=
          if_pos hbusy
        rw [step_append hctl, if_pos rfl] at hstep
        obtain rfl := Option.some.inj hstep
        exact ⟨h, completes_of_dialing hdialing rfl⟩
      · have hctl : ctlSetDialingString (some .append) dialstr log.chan =
            (0, { log.chan with
              txdialbuf := log.chan.txdialbuf ++ dialText dialstr, dialing := true }) := by
          rw [ctlSetDialingString_append hbusy]
          exact if_pos hdialing
        rw [step_append hctl, if_neg (by decide)] at hstep
        obtain rfl := Option.some.inj hstep
        exact ⟨h.append_dialing hdialing _, completes_of_dialing rfl rfl⟩

theorem Stage.tick (h : Stage arm log) (hstep : log.step arm slab zone .tick = some log') :
    Stage arm log' ∧ Completes arm .tick log log' := by
  cases hdialing : log.chan.dialing with
  | true =>
      obtain ⟨log'', hstep', -, hstage⟩ := h.tick_of_dialing slab zone hdialing
      obtain rfl := Option.some.inj (hstep'.symm.trans hstep)
      exact hstage
  | false =>
      obtain ⟨hrest, hall⟩ := h.resting_of_not_dialing hdialing
      obtain ⟨⟨chan, segs⟩, hloop, rfl⟩ := Option.map_eq_some_iff.mp hstep
      obtain ⟨hrest', hevents, hstarted⟩ := hrest.loop log.heard hloop
      refine ⟨.resting hrest' (hstarted.trans hall), completes_of_not_ends ?_ hevents⟩
      intro hends
      have hdialed := hends.dialed
      simp [hdialing, DialInput.dials] at hdialed

theorem Stage.step (h : Stage arm log) (hstep : log.step arm slab zone input = some log') :
    Stage arm log' ∧ Completes arm input log log' := by
  cases input with
  | replace c rest => exact h.replace c rest hstep
  | append dialstr => exact h.append dialstr hstep
  | cancel => exact h.cancel hstep
  | tick => exact h.tick hstep
  | other ringOn timer events => exact h.other hstep

theorem Stage.returns (h : Stage arm log) (slab : ℕ) (zone : ZoneTones) (input : DialInput)
    (hzone : ∀ s i, log.chan.curtone ≠ some (.zone s i)) :
    ∃ log', log.step arm slab zone input = some log' := by
  cases input with
  | tick =>
      cases hdialing : log.chan.dialing with
      | true =>
          obtain ⟨log', hstep, -⟩ := h.tick_of_dialing slab zone hdialing
          exact ⟨log', hstep⟩
      | false =>
          obtain ⟨hrest, -⟩ := h.resting_of_not_dialing hdialing
          have hnone : log.chan.curtone = none :=
            hrest.curtone.resolve_right fun ⟨s, i, hsome⟩ => hzone s i hsome
          have hround : getbufRound arm (toneAt slab zone) log.chan (asChunksize arm) =
              some (.fill log.chan ⟨.idle log.chan.clear, asChunksize arm⟩ 0) := by
            simp only [getbufRound, h.idle, hnone, if_false]
          exact ⟨_, step_tick_of_fill hround⟩
  | _ => exact ⟨_, rfl⟩

/-- The interrupts alone bring the dialling to its end, if the line does not ring. -/
theorem Stage.ends (h : Stage arm log) (slab : ℕ) (zone : ZoneTones)
    (hring : log.chan.ringOn = false) :
    ∃ n log', Machine.finish (DialLog.step arm slab zone) (List.replicate n .tick) log =
        some log' ∧
      log'.chan.dialing = false ∧ log'.owed = log.owed ∧ log'.AllStarted := by
  have hstep : ∀ log₁ : DialLog,
      Stage arm log₁ ∧ log₁.chan.ringOn = false ∧ log₁.owed = log.owed →
      ¬log₁.chan.dialing = false →
      ∃ log₂, log₁.step arm slab zone .tick = some log₂ ∧
        (Stage arm log₂ ∧ log₂.chan.ringOn = false ∧ log₂.owed = log.owed) ∧
        dialMeasure log₂.chan < dialMeasure log₁.chan := by
    rintro log₁ ⟨hstage, hquiet, howed⟩ hdialing
    rw [Bool.not_eq_false] at hdialing
    obtain ⟨log₂, htick, hnearer, hstage', -⟩ := hstage.tick_of_dialing slab zone hdialing
    obtain ⟨hquiet', hless⟩ := hnearer hquiet
    refine ⟨log₂, htick, ⟨hstage', hquiet', ?_⟩, hless⟩
    obtain ⟨r, -, rfl⟩ := Option.map_eq_some_iff.mp htick
    exact howed
  obtain ⟨n, log', hfinish, ⟨hstage, -, howed⟩, hdialing⟩ :=
    Machine.finish_of_measure (fun log : DialLog => dialMeasure log.chan) DialInput.tick hstep
      ⟨h, hring, rfl⟩
  exact ⟨n, log', hfinish, hdialing, howed, (hstage.resting_of_not_dialing hdialing).2⟩

end Step

/-! ## Whole runs -/

def DialLog.begin (chan : ToneChan) : DialLog := ⟨chan, ⟨[], []⟩, []⟩

/-- What is promised in every state: the tones of the characters are started in order and each
once, the steps return, the event comes once and at the end, and the end comes. -/
structure DialsProperly (arm : Bool) (slab : ℕ) (zone : ZoneTones) (log : DialLog) : Prop where
  inOrder : log.InOrder
  returns : (∀ s i, log.chan.curtone ≠ some (.zone s i)) →
    ∀ input, ∃ log', log.step arm slab zone input = some log'
  completes : ∀ input log', log.step arm slab zone input = some log' →
    Completes arm input log log'
  ends : log.chan.ringOn = false →
    ∃ n log', Machine.finish (DialLog.step arm slab zone) (List.replicate n .tick) log =
        some log' ∧
      log'.chan.dialing = false ∧ log'.owed = log.owed ∧ log'.AllStarted

/-- Whatever requests come between the interrupts, dial strings are played completely and in
order. -/
theorem dial_strings_played (arm : Bool) (slab : ℕ) (zone : ZoneTones) {chan : ToneChan}
    (hrest : Resting chan) (inputs : List DialInput) {log : DialLog}
    (h : Machine.Visits (DialLog.step arm slab zone) (DialLog.begin chan) inputs log) :
    DialsProperly arm slab zone log := by
  have hstage : Stage arm log :=
    h.invariant (fun hlog hstep => (hlog.step hstep).1) (.resting hrest rfl)
  exact
    { inOrder := hstage.inOrder
      returns := fun hzone input => hstage.returns slab zone input hzone
      completes := fun input log' hstep => (hstage.step hstep).2
      ends := hstage.ends slab zone }

/-- A string is replaced while its first digit is sent, and another digit is appended. The
interrupts then send what is owed, and the period is over. -/
def replacedString : List DialInput :=
  [.replace '1' ['9']] ++ List.replicate 10 .tick ++ [.replace '2' [], .append ['3']] ++
    List.replicate 150 .tick

theorem dial_strings_played_replaced : Resting quietChan ∧
    ∃ log, Machine.Visits (DialLog.step true 0 .empty) (DialLog.begin quietChan)
        replacedString log ∧
      (log.owed = ['1', '2', '3'] ∧ log.chan.dialing = false ∧
        log.heard.started = [.dtmf 1, .dtmf 2, .dtmf 3]) ∧
      DialsProperly true 0 .empty log := by
  have hrest : Resting quietChan := ⟨by decide, rfl, rfl, .inl rfl⟩
  obtain ⟨log, hvisits, hends⟩ : ∃ log, Machine.Visits (DialLog.step true 0 .empty)
      (DialLog.begin quietChan) replacedString log ∧ log.owed = ['1', '2', '3'] ∧
        log.chan.dialing = false ∧ log.heard.started = [.dtmf 1, .dtmf 2, .dtmf 3] :=
    Machine.exists_visits (by decide +kernel)
  exact ⟨hrest, log, hvisits, hends, dial_strings_played true 0 .empty hrest _ hvisits⟩

end Slic
end WirelessMesh
