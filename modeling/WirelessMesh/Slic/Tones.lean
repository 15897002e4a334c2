import WirelessMesh.Slic.Buffers

/-!
# Tones and dial strings

A tone zone is one piece of memory: a table of the tones by their number, and behind it the
tones, each with a sample count and a pointer to the one that follows. A process may load
another zone for the whole span. Channels point into the zone while they play a tone of it,
or to the static tones while they dial.
-/

namespace WirelessMesh
namespace Slic

def asToneMax : ℤ := 16
def asToneStop : ℤ := -1
def asMaxCadence : ℤ := 16
def maxTones : ℤ := 128
def asMaxDtmfBuf : ℕ := 256

/-- The words of `struct as_zone_tones_data` before `tones`. -/
def zoneHeaderWords : ℤ := 28

def dtmfLength : ℤ := 100 * 8
def pauseLength : ℤ := 500 * 8

def asEventDialcomplete : Event := 9

/-- A pointer to a tone: one of the static ones, or a place in the memory of a zone. -/
inductive ToneRef
  | dtmf (i : Fin 16)
  | silence
  | pause
  | zone (slab index : ℕ)
deriving DecidableEq

/-- `struct as_tone`, as far as it steers the transmitter. -/
structure Tone where
  tonesamples : ℤ
  next : Option ToneRef
deriving DecidableEq

/-! ## Loading a zone -/

structure ToneDef where
  toneId : CInt
  next : CInt
  samples : CInt

structure ZoneTone where
  tonesamples : ℤ
  next : ℕ
deriving DecidableEq

/-- `struct as_zone_tones_data` with the tones behind it. -/
structure ZoneTones where
  samples : List ZoneTone
  tones : ℕ → Option ℕ

namespace ZoneTones

def empty : ZoneTones := ⟨[], fun _ => none⟩

/-- One more tone. The first one of a number is entered under it. A negative number within
the header writes to fields that are not modelled. -/
def add (zone : ZoneTones) (td : ToneDef) : ZoneTones where
  samples := zone.samples ++ [⟨td.samples.toInt, td.next.toInt.toNat⟩]
  tones :=
    if 0 ≤ td.toneId.toInt ∧ zone.tones td.toneId.toInt.toNat = none then
      Function.update zone.tones td.toneId.toInt.toNat (some zone.samples.length)
    else zone.tones

/-- The loop of `as_ioctl_load_zone`, over what could be copied from the process. `none` is a
write in front of the zone's memory. -/
def loadLoop (count : ℤ) : List (Option ToneDef) → ZoneTones → Option (Except ℤ ZoneTones)
  | [], zone => some (.ok zone)
  | none :: _, _ => some (.error (-eio))
  | some td :: tds, zone =>
      if count ≤ td.next.toInt ∨ td.next.toInt < 0 then some (.error (-einval))
      else if asToneMax ≤ td.toneId.toInt then some (.error (-einval))
      else if td.toneId.toInt < -zoneHeaderWords then none
      else loadLoop count tds (zone.add td)

/-- `as_ioctl_load_zone` up to the exchange of the zones. With at most `MAX_TONES` tones the
size never exceeds `MAX_SIZE`. -/
def ioctlLoadZone (memory : Bool) (count : CInt) (defs : ℕ → Option ToneDef) :
    Option (Except ℤ ZoneTones) :=
  if count.toInt < 0 ∨ maxTones < count.toInt then some (.error (-einval))
  else if !memory then some (.error (-enomem))
  else loadLoop count.toInt ((List.range count.toInt.toNat).map defs) empty

/-- `__as_zone_get_tone`. Its test lets two numbers through that have no entry; the caller
has refused them before. -/
def getTone (zone : ZoneTones) (type : ℤ) : Option ℕ :=
  if asMaxCadence < type ∨ type < asToneStop then none else zone.tones type.toNat

/-- Every pointer of a zone leads into it, and its sample counts are C integers. -/
structure WellFormed (zone : ZoneTones) : Prop where
  next_lt : ∀ t ∈ zone.samples, t.next < zone.samples.length
  tones_lt : ∀ id i, zone.tones id = some i → i < zone.samples.length
  samples_int : ∀ t ∈ zone.samples, -2 ^ 31 ≤ t.tonesamples ∧ t.tonesamples < 2 ^ 31

structure Loading (count : ℤ) (zone : ZoneTones) : Prop where
  next_lt : ∀ t ∈ zone.samples, (t.next : ℤ) < count
  tones_lt : ∀ id i, zone.tones id = some i → i < zone.samples.length
  samples_int : ∀ t ∈ zone.samples, -2 ^ 31 ≤ t.tonesamples ∧ t.tonesamples < 2 ^ 31

variable {zone zone' : ZoneTones} {count : ℤ} {td : ToneDef}

theorem Loading.add (h : Loading count zone)
    (hnext : ¬(count ≤ td.next.toInt ∨ td.next.toInt < 0)) :
    Loading count (zone.add td) where
  next_lt := by
    intro t ht
    rcases List.mem_append.mp ht with ht | ht
    · exact h.next_lt t ht
    · obtain rfl := List.mem_singleton.mp ht
      dsimp only
      omega
  tones_lt := by
    intro id i hi
    unfold ZoneTones.add at hi ⊢
    rw [List.length_append]
    dsimp only at hi
    split_ifs at hi with hid
    · by_cases hsame : id = td.toneId.toInt.toNat
      · rw [hsame, Function.update_self] at hi
        obtain rfl := Option.some.inj hi
        exact Nat.lt_succ_self _
      · rw [Function.update_of_ne hsame] at hi
        exact Nat.lt_succ_of_lt (h.tones_lt id i hi)
    · exact Nat.lt_succ_of_lt (h.tones_lt id i hi)
  samples_int := by
    intro t ht
    rcases List.mem_append.mp ht with ht | ht
    · exact h.samples_int t ht
    · obtain rfl := List.mem_singleton.mp ht
      exact ⟨td.samples.le_toInt, td.samples.toInt_lt⟩

theorem Loading.loop {tds : List (Option ToneDef)} (h : Loading count zone)
    (hload : loadLoop count tds zone = some (.ok zone')) :
    Loading count zone' ∧ zone'.samples.length = zone.samples.length + tds.length := by
  induction tds generalizing zone with
  | nil =>
      obtain rfl := Except.ok.inj (Option.some.inj hload)
      exact ⟨h, rfl⟩
  | cons td tds ih =>
      cases td with
      | none => cases Option.some.inj hload
      | some td =>
          unfold loadLoop at hload
          split_ifs at hload with hnext hid hhead
          · cases Option.some.inj hload
          · cases Option.some.inj hload
          · obtain ⟨hloading, hlength⟩ := ih (h.add hnext) hload
            refine ⟨hloading, ?_⟩
            simp only [hlength, ZoneTones.add, List.length_append, List.length_cons,
              List.length_nil]
            omega

theorem loading_empty (count : ℤ) : Loading count empty where
  next_lt := by simp [empty]
  tones_lt := by simp [empty]
  samples_int := by simp [empty]

theorem wellFormed_of_load {memory : Bool} {count : CInt} {defs : ℕ → Option ToneDef}
    (h : ioctlLoadZone memory count defs = some (.ok zone)) : zone.WellFormed := by
  unfold ioctlLoadZone at h
  split_ifs at h with hcount hmemory
  · cases Option.some.inj h
  · cases Option.some.inj h
  · obtain ⟨hloading, hlength⟩ := (loading_empty count.toInt).loop h
    have hlength : (zone.samples.length : ℤ) = count.toInt := by
      rw [hlength]
      simp only [empty, List.length_map, List.length_range, List.length_nil]
      omega
    refine ⟨?_, hloading.tones_lt, hloading.samples_int⟩
    intro t ht
    have hlt := hloading.next_lt t ht
    omega

end ZoneTones

/-! ## The tones of a channel -/

/-- The fields of `struct as_dev_chan` that the transmitter reads. -/
structure ToneChan extends ChanBufs where
  curtone : Option ToneRef
  tonep : ℤ
  txdialbuf : List Char
  dialing : Bool
  firstDialingTimer : ℤ
  /-- `txstate` is `AS_TXSTATE_RINGON`. -/
  ringOn : Bool
  /-- `AS_CHAN_FLAG_CLEAR` is set. -/
  clear : Bool

def zoneGetDtmfTone (digit : Char) : ToneRef :=
  match digit with
  | '0' => .dtmf 0
  | '1' => .dtmf 1
  | '2' => .dtmf 2
  | '3' => .dtmf 3
  | '4' => .dtmf 4
  | '5' => .dtmf 5
  | '6' => .dtmf 6
  | '7' => .dtmf 7
  | '8' => .dtmf 8
  | '9' => .dtmf 9
  | '*' => .dtmf 10
  | '#' => .dtmf 11
  | 'A' | 'a' => .dtmf 12
  | 'B' | 'b' => .dtmf 13
  | 'C' | 'c' => .dtmf 14
  | 'D' | 'd' => .dtmf 15
  | _ => .pause

/-- `__as_dsp_play_dtmf`, which is also `play_caller_id`. Each digit has a tone, so the loop
ends with its first round. -/
def dspPlayDtmf (chan : ToneChan) : ToneChan :=
  match chan.txdialbuf with
  | c :: rest => { chan with txdialbuf := rest, curtone := some (zoneGetDtmfTone c), tonep := 0 }
  | [] =>
      { chan with
        dialing := false
        toChanBufs := { chan.toChanBufs with
          events := channelQevent chan.events asEventDialcomplete } }

/-- `__as_dsp_play_tone`, for the zone at `slab`. -/
def dspPlayTone (slab : ℕ) (zone : ZoneTones) (chan : ToneChan) (toneId : ℤ) : ℤ × ToneChan :=
  let chan := { chan with tonep := 0, curtone := none, txdialbuf := [], dialing := false }
  if asToneMax ≤ toneId ∨ toneId < -1 then (-einval, chan)
  else if toneId < 0 then (0, chan)
  else
    match zone.getTone toneId with
    | some i => (0, { chan with curtone := some (.zone slab i) })
    | none => (-enosys, chan)

inductive DialOp
  | cancel
  | replace
  | append
deriving DecidableEq

/-- `__as_channel_ctl_set_dialing_string`, with the string up to its end mark. -/
def ctlSetDialingString (op : Option DialOp) (dialstr : List Char) (chan : ToneChan) :
    ℤ × ToneChan :=
  let dialstr := dialstr.take (asMaxDtmfBuf - 1)
  match op with
  | some .cancel =>
      (0, { chan with curtone := none, dialing := false, txdialbuf := [], tonep := 0 })
  | some .replace => (0, dspPlayDtmf { chan with txdialbuf := dialstr, dialing := true })
  | some .append =>
      if asMaxDtmfBuf ≤ dialstr.length + chan.txdialbuf.length then (-ebusy, chan)
      else
        let dialing := chan.dialing
        let chan := { chan with txdialbuf := chan.txdialbuf ++ dialstr, dialing := true }
        if dialing then (0, chan) else (0, dspPlayDtmf chan)
  | none => (-einval, chan)

end Slic
end WirelessMesh
