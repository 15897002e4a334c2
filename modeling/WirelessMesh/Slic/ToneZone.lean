import WirelessMesh.Slic.Transmit

/-!
# Tones that are played while the zone changes

The span has one tone zone for all its channels. A channel holds a pointer to the tone it
plays, and the transmit interrupt follows the pointers of the zone. A new zone takes the place
of the old one, whose memory is freed.
-/

namespace WirelessMesh
namespace Slic

/-- The span with its tone zone. The zones get the addresses 0, 1, 2, ... in the order in which
they are installed. -/
structure ZoneSpan where
  slab : ℕ
  zone : ZoneTones
  chans : List ToneChan

inductive ToneEvent
  | playTone (c : ℕ) (toneId : CInt)
  | dial (c : ℕ) (op : Option DialOp) (dialstr : List Char)
  | loadZone (memory : Bool) (count : CInt) (defs : ℕ → Option ToneDef)
  | tick (c : ℕ) (rounds : ℕ)
  /-- Whatever else happens to a channel: its buffers, its timer, its ring state. -/
  | other (c : ℕ) (bufs : ChanBufs) (firstDialingTimer : ℤ) (ringOn clear : Bool)

namespace ZoneSpan

def onChan (span : ZoneSpan) (c : ℕ) (f : ToneChan → Option ToneChan) : Option ZoneSpan :=
  (span.chans[c]?.bind f).map fun chan => { span with chans := span.chans.set c chan }

/-- `__as_zone_replace_tones`, with a zone at a new address. -/
def replaceTones (span : ZoneSpan) (zone : ZoneTones) : ZoneSpan :=
  { span with slab := span.slab + 1, zone }

def step (arm : Bool) : ToneEvent → ZoneSpan → Option ZoneSpan
  | .playTone c toneId, span =>
      span.onChan c fun chan => some (dspPlayTone span.slab span.zone chan toneId.toInt).2
  | .dial c op dialstr, span =>
      span.onChan c fun chan => some (ctlSetDialingString op dialstr chan).2
  | .loadZone memory count defs, span =>
      (ZoneTones.ioctlLoadZone memory count defs).map fun res =>
        match res with
        | .ok zone => span.replaceTones zone
        | .error _ => span
  | .tick c rounds, span =>
      span.onChan c fun chan =>
        (channelOutGetbufChunk arm (toneAt span.slab span.zone) rounds chan).map Prod.fst
  | .other c bufs firstDialingTimer ringOn clear, span =>
      span.onChan c fun chan =>
        some { chan with toChanBufs := bufs, firstDialingTimer, ringOn, clear }

def Belongs (span : ZoneSpan) : ToneRef → Prop
  | .zone s i => s = span.slab ∧ i < span.zone.samples.length
  | _ => True

def Plays (span : ZoneSpan) (chan : ToneChan) : Prop :=
  ∀ t, chan.curtone = some t → span.Belongs t

def AllPlay (span : ZoneSpan) : Prop := ∀ chan ∈ span.chans, span.Plays chan

def isStatic : ToneRef → Bool
  | .zone _ _ => false
  | _ => true

/-- A zone is loaded only while no channel plays a tone of the old one. -/
def Silent : ToneEvent → ZoneSpan → Prop
  | .loadZone memory count defs, span =>
      match ZoneTones.ioctlLoadZone memory count defs with
      | some (.ok _) => ∀ chan ∈ span.chans, chan.curtone.all isStatic = true
      | _ => True
  | _, _ => True

variable {span span' : ZoneSpan} {chan chan' : ToneChan} {arm : Bool}

/-! ## What the requests make a channel play -/

theorem belongs_of_static {t : ToneRef} (h : isStatic t = true) : span.Belongs t := by
  cases t with
  | zone s i => cases h
  | _ => trivial

theorem plays_of_static (h : chan.curtone.all isStatic = true) : span.Plays chan := by
  intro t ht
  rw [ht] at h
  exact belongs_of_static h

theorem plays_none (h : chan.curtone = none) : span.Plays chan := by
  intro t ht
  rw [h] at ht
  cases ht

theorem Plays.congr (h : span.Plays chan) (heq : chan'.curtone = chan.curtone) :
    span.Plays chan' := by
  intro t ht
  exact h t (heq.symm.trans ht)

theorem isStatic_getDtmfTone (digit : Char) : isStatic (zoneGetDtmfTone digit) = true := by
  unfold zoneGetDtmfTone
  split <;> rfl

theorem plays_dspPlayDtmf (h : span.Plays chan) : span.Plays (dspPlayDtmf chan) := by
  unfold dspPlayDtmf
  split
  · apply plays_of_static
    exact isStatic_getDtmfTone _
  · exact h

theorem plays_dspPlayTone (hzone : span.zone.WellFormed) (toneId : ℤ) :
    span.Plays (dspPlayTone span.slab span.zone chan toneId).2 := by
  unfold dspPlayTone
  dsimp only
  split_ifs
  · exact plays_none rfl
  · exact plays_none rfl
  · cases hget : span.zone.getTone toneId with
    | none => exact plays_none rfl
    | some i =>
        intro t ht
        obtain rfl := Option.some.inj ht
        unfold ZoneTones.getTone at hget
        split_ifs at hget
        exact ⟨rfl, hzone.tones_lt _ i hget⟩

theorem plays_dial (h : span.Plays chan) (op : Option DialOp) (dialstr : List Char) :
    span.Plays (ctlSetDialingString op dialstr chan).2 := by
  unfold ctlSetDialingString
  dsimp only
  split
  · exact plays_none rfl
  · exact plays_dspPlayDtmf h
  · split_ifs
    · exact h
    · exact h
    · exact plays_dspPlayDtmf h
  · exact h

/-! ## What the interrupt makes a channel play -/

theorem belongs_next (hzone : span.zone.WellFormed) {t t' : ToneRef} {tone : Tone}
    (htone : toneAt span.slab span.zone t = some tone) (hnext : tone.next = some t') :
    span.Belongs t' := by
  cases t with
  | zone s i =>
      simp only [toneAt] at htone
      split_ifs at htone with hs
      obtain ⟨tone', hget, rfl⟩ := Option.map_eq_some_iff.mp htone
      obtain rfl := Option.some.inj hnext
      exact ⟨rfl, hzone.next_lt tone' (List.mem_of_getElem? hget)⟩
  | _ =>
      obtain rfl := Option.some.inj htone
      cases hnext <;> trivial

theorem plays_nextTone (hzone : span.zone.WellFormed) {t : ToneRef} {tone : Tone}
    (htone : toneAt span.slab span.zone t = some tone) : span.Plays (nextTone chan tone) := by
  have hplays : span.Plays { chan with tonep := 0, curtone := tone.next } :=
    fun t' ht' => belongs_next hzone htone ht'
  unfold nextTone
  dsimp only
  split_ifs
  · exact plays_dspPlayDtmf hplays
  · exact hplays

theorem plays_toneRound (hzone : span.zone.WellFormed) (h : span.Plays chan) {t : ToneRef}
    {tone : Tone} {bytes : ℤ} {round : Round}
    (htone : toneAt span.slab span.zone t = some tone)
    (hround : toneRound chan t tone bytes = some round) : span.Plays round.after := by
  obtain ⟨left, -, hround⟩ := Option.bind_eq_some_iff.mp hround
  obtain ⟨tonep, -, hround⟩ := Option.bind_eq_some_iff.mp hround
  obtain ⟨rest, -, hround⟩ := Option.bind_eq_some_iff.mp hround
  obtain rfl := Option.some.inj hround
  dsimp only [Round.after]
  split_ifs
  · exact plays_nextTone hzone htone
  · exact h

theorem plays_getbufRound (hzone : span.zone.WellFormed) (h : span.Plays chan) {bytes : ℤ}
    {round : Round}
    (hround : getbufRound arm (toneAt span.slab span.zone) chan bytes = some round) :
    span.Plays round.after := by
  unfold getbufRound at hround
  by_cases hsend : chan.sending
  · rw [if_pos hsend] at hround
    obtain rfl := Option.some.inj hround
    exact h
  · rw [if_neg hsend] at hround
    cases hcur : chan.curtone with
    | none =>
        rw [hcur] at hround
        obtain rfl := Option.some.inj hround
        exact h
    | some t =>
        rw [hcur] at hround
        dsimp only at hround
        split_ifs at hround
        · obtain rfl := Option.some.inj hround
          exact h
        · obtain rfl := Option.some.inj hround
          exact h.congr hcur.symm
        all_goals obtain ⟨tone, htone, hround⟩ := Option.bind_eq_some_iff.mp hround
        · exact plays_toneRound hzone (h.congr hcur.symm) htone hround
        · exact plays_toneRound hzone h htone hround

theorem plays_getbufLoop (hzone : span.zone.WellFormed) {rounds : ℕ} {bytes : ℤ}
    {segs : List Segment} (h : span.Plays chan)
    (hloop : getbufLoop arm (toneAt span.slab span.zone) rounds chan bytes = some (chan', segs)) :
    span.Plays chan' := by
  induction rounds generalizing chan bytes segs with
  | zero =>
      unfold getbufLoop at hloop
      split_ifs at hloop
      obtain ⟨rfl, -⟩ := Prod.mk.inj (Option.some.inj hloop)
      exact h
  | succ rounds ih =>
      unfold getbufLoop at hloop
      split_ifs at hloop
      · obtain ⟨rfl, -⟩ := Prod.mk.inj (Option.some.inj hloop)
        exact h
      · obtain ⟨round, hround, hloop⟩ := Option.bind_eq_some_iff.mp hloop
        have hplays := plays_getbufRound hzone h hround
        cases round with
        | stop chan =>
            obtain ⟨rfl, -⟩ := Prod.mk.inj (Option.some.inj hloop)
            exact hplays
        | fill chan seg rest =>
            obtain ⟨⟨chan'', segs'⟩, hloop', heq⟩ := Option.map_eq_some_iff.mp hloop
            obtain ⟨rfl, -⟩ := Prod.mk.inj heq
            exact ih hplays hloop'

/-! ## Runs -/

theorem allPlay_onChan {c : ℕ} {f : ToneChan → Option ToneChan} (h : span.AllPlay)
    (hf : ∀ {chan chan'}, span.Plays chan → f chan = some chan' → span.Plays chan')
    (hstep : span.onChan c f = some span') :
    span'.AllPlay ∧ span'.zone = span.zone := by
  obtain ⟨chan', hbind, rfl⟩ := Option.map_eq_some_iff.mp hstep
  obtain ⟨chan, hget, hchan'⟩ := Option.bind_eq_some_iff.mp hbind
  refine ⟨?_, rfl⟩
  intro chan'' hmem
  rcases List.mem_or_eq_of_mem_set hmem with hmem | rfl
  · exact h chan'' hmem
  · exact hf (h chan (List.mem_of_getElem? hget)) hchan'

theorem allPlay_replaceTones_iff (h : span.AllPlay) (zone : ZoneTones) :
    (span.replaceTones zone).AllPlay ↔
      ∀ chan ∈ span.chans, chan.curtone.all isStatic = true := by
  constructor
  · intro h' chan hmem
    cases hcur : chan.curtone with
    | none => rfl
    | some t =>
        have hold := h chan hmem t hcur
        have hnew := h' chan hmem t hcur
        cases t with
        | zone s i =>
            have hslab : span.slab = span.slab + 1 := hold.1.symm.trans hnew.1
            omega
        | _ => rfl
  · intro hstatic chan hmem
    exact plays_of_static (hstatic chan hmem)

theorem allPlay_step {event : ToneEvent} (h : span.AllPlay) (hzone : span.zone.WellFormed)
    (hstep : step arm event span = some span') :
    (span'.AllPlay ↔ Silent event span) ∧ span'.zone.WellFormed := by
  cases event with
  | playTone c toneId =>
      obtain ⟨hall, heq⟩ := allPlay_onChan h (fun _ hf => by
        obtain rfl := Option.some.inj hf
        exact plays_dspPlayTone hzone _) hstep
      exact ⟨iff_of_true hall trivial, heq ▸ hzone⟩
  | dial c op dialstr =>
      obtain ⟨hall, heq⟩ := allPlay_onChan h (fun hplays hf => by
        obtain rfl := Option.some.inj hf
        exact plays_dial hplays op dialstr) hstep
      exact ⟨iff_of_true hall trivial, heq ▸ hzone⟩
  | loadZone memory count defs =>
      obtain ⟨res, hload, rfl⟩ := Option.map_eq_some_iff.mp hstep
      cases res with
      | error e => exact ⟨iff_of_true h (by simp [Silent, hload]), hzone⟩
      | ok zone =>
          refine ⟨?_, ZoneTones.wellFormed_of_load hload⟩
          simp only [Silent, hload]
          exact allPlay_replaceTones_iff h zone
  | tick c rounds =>
      obtain ⟨hall, heq⟩ := allPlay_onChan h (fun hplays hf => by
        obtain ⟨⟨chan', segs⟩, hloop, rfl⟩ := Option.map_eq_some_iff.mp hf
        exact plays_getbufLoop hzone hplays hloop) hstep
      exact ⟨iff_of_true hall trivial, heq ▸ hzone⟩
  | other c bufs firstDialingTimer ringOn clear =>
      obtain ⟨hall, heq⟩ := allPlay_onChan h (fun hplays hf => by
        obtain rfl := Option.some.inj hf
        exact hplays) hstep
      exact ⟨iff_of_true hall trivial, heq ▸ hzone⟩

def start (zone : ZoneTones) (channels : ℕ) : ZoneSpan :=
  ⟨0, zone, List.replicate channels quietChan⟩

theorem allPlay_start (zone : ZoneTones) (channels : ℕ) : (start zone channels).AllPlay := by
  intro chan hmem
  obtain rfl := List.eq_of_mem_replicate hmem
  exact plays_none rfl

/-- On any number of channels, and with a well-formed zone to begin with, every channel plays
a tone of the loaded zone, a static one or none in every state of a run exactly when each zone
is loaded while no channel plays a tone of the zone before it. -/
theorem playing_tones_belong_iff (arm : Bool) {zone : ZoneTones} (hzone : zone.WellFormed)
    (channels : ℕ) (events : List ToneEvent) :
    (∀ span, Machine.Visits (step arm) (start zone channels) events span → span.AllPlay) ↔
      Machine.Throughout (step arm) Silent events (start zone channels) :=
  Machine.visits_iff allPlay_step events (allPlay_start zone channels) hzone

instance Silent.decidable : (event : ToneEvent) → (span : ZoneSpan) → Decidable (Silent event span)
  | .loadZone memory count defs, span =>
      match h : ZoneTones.ioctlLoadZone memory count defs with
      | some (.ok _) =>
          decidable_of_iff (∀ chan ∈ span.chans, chan.curtone.all isStatic = true)
            (by simp only [Silent, h])
      | some (.error _) => .isTrue (by simp only [Silent, h])
      | none => .isTrue (by simp only [Silent, h])
  | .playTone _ _, _ => .isTrue trivial
  | .dial _ _ _, _ => .isTrue trivial
  | .tick _ _, _ => .isTrue trivial
  | .other _ _ _ _ _, _ => .isTrue trivial

def oneTone : ZoneTones := ZoneTones.empty.add ⟨0, 0, 4000⟩

theorem wellFormed_oneTone : oneTone.WellFormed :=
  ZoneTones.wellFormed_of_load (rfl : zoneOf [⟨0, 0, 4000⟩] = _)

/-- The zone is exchanged after the tone was stopped. -/
theorem playing_tones_belong_stopped :
    oneTone.WellFormed ∧ ∀ span, Machine.Visits (step false) (start oneTone 2)
      [.playTone 0 0, .tick 0 1, .playTone 0 (-1), .loadZone true 1 fun _ => some ⟨0, 0, 800⟩,
        .playTone 1 0, .tick 1 1] span → span.AllPlay :=
  ⟨wellFormed_oneTone,
    (playing_tones_belong_iff false wellFormed_oneTone 2 _).mpr (by decide +kernel)⟩

/-- The zone is exchanged while a channel plays a tone of it. -/
theorem playing_tone_dangles :
    oneTone.WellFormed ∧ ∃ span, Machine.Visits (step false) (start oneTone 1)
      [.playTone 0 0, .loadZone true 1 fun _ => some ⟨0, 0, 800⟩] span ∧
        span.slab = 1 ∧ span.chans.map ToneChan.curtone = [some (.zone 0 0)] ∧ ¬span.AllPlay := by
  refine ⟨wellFormed_oneTone, ?_⟩
  obtain ⟨span, hvisits, hslab, hchans⟩ : ∃ span, Machine.Visits (step false) (start oneTone 1)
      [.playTone 0 0, .loadZone true 1 fun _ => some ⟨0, 0, 800⟩] span ∧
        span.slab = 1 ∧ span.chans.map ToneChan.curtone = [some (.zone 0 0)] :=
    Machine.exists_visits (by decide +kernel)
  refine ⟨span, hvisits, hslab, hchans, ?_⟩
  intro hall
  obtain ⟨chan, hmem, hcur⟩ : ∃ chan ∈ span.chans, chan.curtone = some (.zone 0 0) :=
    List.mem_map.mp (hchans ▸ List.mem_cons_self)
  have hbelongs := (hall chan hmem _ hcur).1
  omega

end ZoneSpan
end Slic
end WirelessMesh
