import WirelessMesh.Lib.Lists
import WirelessMesh.Lib.SignedWords
import WirelessMesh.Lib.Trail
import WirelessMesh.Slic.Tones
import Mathlib.Data.List.Forall2

/-!
# Tone strings

A tone zone is written as one string for each tone, `[!]freq1[+freq2][/time]` with commas
between the components. The user library compiles the strings to numbered definitions, each
with the number of the one that follows it, and hands all of them to the driver at once.
-/

namespace WirelessMesh
namespace Slic

/-! ## Reading a string -/

/-- `strtok` with a comma: the parts between the commas that are not empty. -/
def strtok (s : List Char) : List (List Char) := (s.splitOn ',').filter (· ≠ [])

def isspace (c : Char) : Bool := c ∈ [' ', '\t', '\n', '\x0b', '\x0c', '\r']

/-- The conversion `%d`, with what is left behind the number. What a number beyond the range
of an `int` becomes is up to the C library. -/
def scanInt (overflow : ℤ → CInt) (s : List Char) : Option (CInt × List Char) :=
  let s := s.dropWhile isspace
  let negative := s.head? = some '-'
  let s := if s.head? = some '-' ∨ s.head? = some '+' then s.tail else s
  let digits := s.takeWhile Char.isDigit
  if digits = [] then none
  else
    let magnitude : ℕ := digits.foldl (fun n c => 10 * n + (c.toNat - '0'.toNat)) 0
    let value : ℤ := if negative then -magnitude else magnitude
    let converted := if -2 ^ 31 ≤ value ∧ value < 2 ^ 31 then BitVec.ofInt 32 value
      else overflow value
    some (converted, s.dropWhile Char.isDigit)

/-- `sscanf` with `%d`s and one character between each two of them: the numbers that were
converted. -/
def sscanf (overflow : ℤ → CInt) : List Char → List Char → List CInt
  | separators, s =>
      match scanInt overflow s, separators with
      | none, _ => []
      | some (value, c :: rest), separator :: separators =>
          value :: if c = separator then sscanf overflow separators rest else []
      | some (value, _), _ => [value]

/-- What a component of a tone string says, and by which of the formats it was read. -/
structure ToneComponent where
  freq1 : CInt
  freq2 : CInt
  time : CInt
  /-- `f1*f2`, with or without a time. -/
  star : Bool
  /-- A frequency and nothing else. -/
  single : Bool
deriving DecidableEq

/-- The formats that `__as_lib_tone_build_tone` tries, in its order. -/
def scanComponent (overflow : ℤ → CInt) (s : List Char) : Option ToneComponent :=
  match sscanf overflow ['+', '/'] s with
  | [freq1, freq2, time] => some ⟨freq1, freq2, time, false, false⟩
  | _ =>
    match sscanf overflow ['*', '/'] s with
    | [freq1, freq2, time] => some ⟨freq1, freq2, time, true, false⟩
    | _ =>
      match sscanf overflow ['+'] s with
      | [freq1, freq2] => some ⟨freq1, freq2, 0, false, false⟩
      | _ =>
        match sscanf overflow ['*'] s with
        | [freq1, freq2] => some ⟨freq1, freq2, 0, true, false⟩
        | _ =>
          match sscanf overflow ['/'] s with
          | [freq1, time] => some ⟨freq1, 0, time, false, false⟩
          | _ =>
            match sscanf overflow [] s with
            | [freq1] => some ⟨freq1, 0, 0, false, true⟩
            | _ => none

/-- The mark in front of a component that is not repeated. -/
def isBang (s : List Char) : Bool := s.head? = some '!'

def skipBang (s : List Char) : List Char := if isBang s then s.tail else s

/-! ## Compiling -/

/-- `struct tone_zone_sound`. -/
structure ToneSound where
  toneid : CInt
  data : List Char
deriving DecidableEq

/-- `struct as_tone_def`. The constants of the oscillators are computed from the two
frequencies. -/
structure BuiltDef where
  toneId : CInt
  next : ℕ
  samples : CInt
  modulate : Bool
  freq1 : CInt
  freq2 : CInt
deriving DecidableEq

inductive BuildError
  | syntaxError (component data : List Char)
  | notEnoughSpace
deriving DecidableEq

/-- `sizeof(struct as_tone_def)`, `sizeof(struct as_tone_def_header)` and `MAX_SIZE`. -/
def toneDefSize : ℕ := 56
def toneDefHeaderSize : ℕ := 112
def maxSize : ℕ := 32768

def ToneComponent.build (component : ToneComponent) (toneId : CInt) (count : ℕ)
    (modulate : Bool) : BuiltDef where
  toneId
  next := if component.time ≠ 0 then count + 1 else count
  samples := if component.time ≠ 0 then component.time * 8 else 8000
  modulate
  freq1 := component.freq1
  freq2 := component.freq2

/-- The loop of `__as_lib_tone_build_tone`: the definitions, and `firstnobang` at the end. -/
def buildLoop (overflow : ℤ → CInt) (sound : ToneSound) :
    List (List Char) → ℕ → ℕ → Option ℕ → Bool → Except BuildError (List BuiltDef × Option ℕ)
  | [], _, _, firstnobang, _ => .ok ([], firstnobang)
  | s :: tokens, size, count, firstnobang, modulate =>
      let firstnobang := if isBang s then firstnobang else firstnobang.or (some count)
      match scanComponent overflow (skipBang s) with
      | none => .error (.syntaxError (skipBang s) sound.data)
      | some component =>
          let firstnobang :=
            if component.single then firstnobang.or (some count) else firstnobang
          let modulate := modulate || component.star
          if size < toneDefSize then .error .notEnoughSpace
          else
            (buildLoop overflow sound tokens (size - toneDefSize) (count + 1) firstnobang
              modulate).map fun r => (component.build sound.toneid count modulate :: r.1, r.2)

/-- The last definition leads back to the first one that is repeated, if there is one. -/
def closeTone (firstnobang : Option ℕ) (defs : List BuiltDef) : List BuiltDef :=
  defs.mapIdx fun i d =>
    if i + 1 = defs.length then { d with next := firstnobang.getD d.next } else d

/-- `__as_lib_tone_build_tone`, with `count` at its start. -/
def buildTone (overflow : ℤ → CInt) (size count : ℕ) (sound : ToneSound) :
    Except BuildError (List BuiltDef) :=
  (buildLoop overflow sound (strtok sound.data) size count none false).map fun r =>
    closeTone r.2 r.1

/-- The definitions of one tone, with the number of the first of them. -/
structure BuiltTone where
  sound : ToneSound
  first : ℕ
  defs : List BuiltDef
deriving DecidableEq

/-- The loop of `__as_lib_tone_register_zone`. -/
def registerLoop (overflow : ℤ → CInt) : List ToneSound → ℕ → ℕ → Except BuildError (List BuiltTone)
  | [], _, _ => .ok []
  | sound :: sounds, space, count =>
      if sound.data = [] then registerLoop overflow sounds space count
      else
        (buildTone overflow space count sound).bind fun defs =>
          (registerLoop overflow sounds (space - toneDefSize * defs.length)
            (count + defs.length)).map fun tones => ⟨sound, count, defs⟩ :: tones

/-- `__as_lib_tone_register_zone` up to the request to the driver. -/
def registerZone (overflow : ℤ → CInt) (sounds : List ToneSound) :
    Except BuildError (List BuiltTone) :=
  registerLoop overflow sounds (maxSize - toneDefHeaderSize) 0

def zoneDefs (tones : List BuiltTone) : List BuiltDef := tones.flatMap BuiltTone.defs

def BuiltDef.toToneDef (d : BuiltDef) : ToneDef := ⟨d.toneId, BitVec.ofNat 32 d.next, d.samples⟩

/-! ## What is expected of a compiled zone -/

def KnownId (id : CInt) : Prop := -zoneHeaderWords ≤ id.toInt ∧ id.toInt < asToneMax

/-- The loop of `as_ioctl_load_zone` comes to a definition with a `next` pointer that it
refuses. -/
def RefusesNext (count : ℤ) : List (Option ToneDef) → Prop
  | [] | none :: _ => False
  | some td :: tds =>
      (count ≤ td.next.toInt ∨ td.next.toInt < 0) ∨ KnownId td.toneId ∧ RefusesNext count tds

structure LoadRefusesNext (memory : Bool) (count : CInt) (defs : ℕ → Option ToneDef) : Prop where
  refused : ZoneTones.ioctlLoadZone memory count defs = some (.error (-einval))
  few : 0 ≤ count.toInt ∧ count.toInt ≤ maxTones
  memory : memory = true
  next : RefusesNext count.toInt ((List.range count.toInt.toNat).map defs)

def followingDef (tones : List BuiltTone) (i : ℕ) : ℕ :=
  ((zoneDefs tones)[i]?.map BuiltDef.next).getD i

/-- The definitions of a zone that is compiled well. -/
structure CompiledWell (tones : List BuiltTone) : Prop where
  /-- The tones that are modulated are those written so. -/
  modulates : ∀ tone ∈ tones,
    List.Forall₂ (fun s d => BuiltDef.modulate d = true ↔ '*' ∈ s) (strtok tone.sound.data)
      tone.defs
  /-- A tone never leads out of its definitions. -/
  closed : ∀ tone ∈ tones, tone.defs ≠ [] →
    Trail.StaysIn (followingDef tones) tone.first (tone.first + tone.defs.length)
  /-- The driver does not refuse a `next` pointer. -/
  loads : ∀ memory,
    ¬LoadRefusesNext memory (BitVec.ofNat 32 (zoneDefs tones).length)
      fun i => (zoneDefs tones)[i]?.map BuiltDef.toToneDef

/-! ## How a string has to be written -/

/-- The component is read as `f1*f2`. -/
def isStar (overflow : ℤ → CInt) (s : List Char) : Bool :=
  (scanComponent overflow (skipBang s)).any ToneComponent.star

/-- A tone may be repeated from this component on: it has no mark, or is a frequency alone. -/
def isRepeated (overflow : ℤ → CInt) (s : List Char) : Bool :=
  !isBang s || (scanComponent overflow (skipBang s)).any ToneComponent.single

/-- The component has no time, or the time 0. -/
def isSolid (overflow : ℤ → CInt) (s : List Char) : Bool :=
  (scanComponent overflow (skipBang s)).any fun component => component.time = 0

/-- A string whose components before the first `f1*f2` have no star, and all others one, and
that is repeated or does not come to its end. -/
structure WellWritten (overflow : ℤ → CInt) (data : List Char) : Prop where
  plain : ∀ s ∈ (strtok data).takeWhile (!isStar overflow ·), '*' ∉ s
  starred : ∀ s ∈ (strtok data).dropWhile (!isStar overflow ·), '*' ∈ s
  stays : strtok data ≠ [] →
    ∃ s ∈ strtok data, isRepeated overflow s = true ∨ isSolid overflow s = true

def componentIds (sounds : List ToneSound) : List CInt :=
  sounds.flatMap fun sound => (strtok sound.data).map fun _ => sound.toneid

/-- The last string that has a component, of a zone that the driver reads to its end. -/
def EndsWell (overflow : ℤ → CInt) (sounds : List ToneSound) : Prop :=
  ∀ sound, (sounds.filter fun sound => strtok sound.data ≠ []).getLast? = some sound →
    (∃ s ∈ strtok sound.data, isRepeated overflow s = true) ∨
      (∃ s, (strtok sound.data).getLast? = some s ∧ isSolid overflow s = true) ∨
      maxTones < (componentIds sounds).length ∨
      ∃ id ∈ (componentIds sounds).dropLast, ¬KnownId id

/-! ## One string -/

section Build

variable {overflow : ℤ → CInt} {sound : ToneSound} {tokens : List (List Char)}
  {size count : ℕ} {firstnobang last : Option ℕ} {modulate : Bool} {defs : List BuiltDef}

theorem buildLoop_cons {s : List Char}
    (h : buildLoop overflow sound (s :: tokens) size count firstnobang modulate =
      .ok (defs, last)) :
    ∃ component rest, scanComponent overflow (skipBang s) = some component ∧
      toneDefSize ≤ size ∧
      buildLoop overflow sound tokens (size - toneDefSize) (count + 1)
          (if isRepeated overflow s then firstnobang.or (some count) else firstnobang)
          (modulate || component.star) = .ok (rest, last) ∧
      defs = component.build sound.toneid count (modulate || component.star) :: rest := by
  unfold buildLoop at h
  cases hscan : scanComponent overflow (skipBang s) with
  | none => simp [hscan] at h
  | some component =>
      -- the mark is looked at first, the format afterwards
      have hfirst : (if component.single then
          (if isBang s then firstnobang else firstnobang.or (some count)).or (some count)
          else if isBang s then firstnobang else firstnobang.or (some count)) =
          if isRepeated overflow s then firstnobang.or (some count) else firstnobang := by
        cases hbang : isBang s <;> cases hsingle : component.single <;>
          simp [isRepeated, hbang, hscan, hsingle]
      simp only [hscan, hfirst] at h
      by_cases hsize : size < toneDefSize
      · rw [if_pos hsize] at h
        cases h
      · rw [if_neg hsize] at h
        obtain ⟨⟨rest, last'⟩, hloop, heq⟩ := Fallible.exists_of_map_eq_ok h
        obtain ⟨rfl, rfl⟩ := Prod.mk.inj heq
        exact ⟨component, rest, rfl, not_lt.mp hsize, hloop, rfl⟩

theorem buildLoop_length
    (h : buildLoop overflow sound tokens size count firstnobang modulate = .ok (defs, last)) :
    defs.length = tokens.length ∧ toneDefSize * defs.length ≤ size ∧
      defs.map BuiltDef.toneId = tokens.map fun _ => sound.toneid := by
  induction tokens generalizing size count firstnobang modulate defs with
  | nil =>
      obtain ⟨rfl, -⟩ := Prod.mk.inj (Except.ok.inj h)
      exact ⟨rfl, Nat.zero_le size, rfl⟩
  | cons s tokens ih =>
      obtain ⟨component, rest, -, hsize, hrest, rfl⟩ := buildLoop_cons h
      obtain ⟨hlength, hspace, hids⟩ := ih hrest
      refine ⟨by simp [hlength], ?_, by simp [hids, ToneComponent.build]⟩
      rw [List.length_cons, Nat.mul_succ]
      omega

/-- The flag is never taken back: a star makes all later components modulated. -/
theorem buildLoop_modulate
    (h : buildLoop overflow sound tokens size count firstnobang modulate = .ok (defs, last)) :
    List.Forall₂ (fun s d => BuiltDef.modulate d = true ↔ '*' ∈ s) tokens defs ↔
      if modulate then ∀ s ∈ tokens, '*' ∈ s
      else (∀ s ∈ tokens.takeWhile (!isStar overflow ·), '*' ∉ s) ∧
        ∀ s ∈ tokens.dropWhile (!isStar overflow ·), '*' ∈ s := by
  induction tokens generalizing size count firstnobang modulate defs with
  | nil =>
      obtain ⟨rfl, -⟩ := Prod.mk.inj (Except.ok.inj h)
      simp
  | cons s tokens ih =>
      obtain ⟨component, rest, hscan, -, hrest, rfl⟩ := buildLoop_cons h
      have hstar : isStar overflow s = component.star := by
        simp [isStar, hscan]
      rw [List.forall₂_cons, ih hrest]
      cases modulate with
      | true => simp [ToneComponent.build]
      | false => cases hc : component.star <;> simp [ToneComponent.build, hstar, hc, and_assoc]

theorem buildLoop_next
    (h : buildLoop overflow sound tokens size count firstnobang modulate = .ok (defs, last))
    {i : ℕ} {s : List Char} (hs : tokens[i]? = some s) :
    ∃ d, defs[i]? = some d ∧
      d.next = if isSolid overflow s then count + i else count + i + 1 := by
  induction tokens generalizing size count firstnobang modulate defs i with
  | nil => simp at hs
  | cons s' tokens ih =>
      obtain ⟨component, rest, hscan, -, hrest, rfl⟩ := buildLoop_cons h
      cases i with
      | zero =>
          obtain rfl := Option.some.inj hs
          refine ⟨_, rfl, ?_⟩
          by_cases htime : component.time = 0 <;>
            simp [ToneComponent.build, isSolid, hscan, htime]
      | succ i =>
          obtain ⟨d, hd, hnext⟩ := ih hrest hs
          refine ⟨d, hd, ?_⟩
          rw [hnext, Nat.add_right_comm]
          rfl

theorem buildLoop_last
    (h : buildLoop overflow sound tokens size count firstnobang modulate = .ok (defs, last)) :
    last = firstnobang.or ((tokens.findIdx? (isRepeated overflow)).map (count + ·)) := by
  induction tokens generalizing size count firstnobang modulate defs with
  | nil =>
      obtain ⟨-, rfl⟩ := Prod.mk.inj (Except.ok.inj h)
      simp
  | cons s tokens ih =>
      obtain ⟨component, rest, -, -, hrest, -⟩ := buildLoop_cons h
      rw [ih hrest, List.findIdx?_cons]
      cases isRepeated overflow s with
      | true => simp
      | false =>
          simp only [Bool.false_eq_true, if_false, Option.map_map]
          congr 2
          funext i
          exact Nat.add_right_comm count 1 i

theorem map_closeTone {α : Type*} {f : BuiltDef → α} (hf : ∀ d n, f { d with next := n } = f d)
    (first : Option ℕ) (defs : List BuiltDef) : (closeTone first defs).map f = defs.map f := by
  apply List.ext_getElem?
  intro i
  simp only [closeTone, List.getElem?_map, List.getElem?_mapIdx, Option.map_map]
  congr 1
  funext d
  simp only [Function.comp_apply]
  split_ifs
  · exact hf d _
  · rfl

/-- What a string that is accepted compiles to: the components one after the other, the last
one perhaps closed to a loop. -/
structure Built (overflow : ℤ → CInt) (size count : ℕ) (sound : ToneSound)
    (defs : List BuiltDef) : Prop where
  length : defs.length = (strtok sound.data).length
  space : toneDefSize * defs.length ≤ size
  ids : defs.map BuiltDef.toneId = (strtok sound.data).map fun _ => sound.toneid
  modulate : List.Forall₂ (fun s d => BuiltDef.modulate d = true ↔ '*' ∈ s)
      (strtok sound.data) defs ↔
    (∀ s ∈ (strtok sound.data).takeWhile (!isStar overflow ·), '*' ∉ s) ∧
      ∀ s ∈ (strtok sound.data).dropWhile (!isStar overflow ·), '*' ∈ s
  next : ∀ i s, (strtok sound.data)[i]? = some s → ∃ d, defs[i]? = some d ∧
    d.next =
      let on := if isSolid overflow s then count + i else count + i + 1
      if i + 1 = defs.length then
        (((strtok sound.data).findIdx? (isRepeated overflow)).map (count + ·)).getD on
      else on

theorem built_of_ok (h : buildTone overflow size count sound = .ok defs) :
    Built overflow size count sound defs := by
  obtain ⟨⟨open', last⟩, hloop, rfl⟩ := Fallible.exists_of_map_eq_ok h
  obtain ⟨hlength, hspace, hids⟩ := buildLoop_length hloop
  have hmodulate := buildLoop_modulate hloop
  have hlast := buildLoop_last hloop
  refine ⟨?_, ?_, ?_, ?_, ?_⟩
  · simpa [closeTone] using hlength
  · simpa [closeTone] using hspace
  · rw [map_closeTone (fun _ _ => rfl), hids]
  · rw [← List.forall₂_map_right_iff (f := BuiltDef.modulate)
      (R := fun s (m : Bool) => m = true ↔ '*' ∈ s), map_closeTone (fun _ _ => rfl),
      List.forall₂_map_right_iff, hmodulate]
    rfl
  · intro i s hs
    obtain ⟨d, hd, hnext⟩ := buildLoop_next hloop hs
    refine ⟨_, by rw [closeTone, List.getElem?_mapIdx, hd]; rfl, ?_⟩
    rw [hlast, Option.none_or]
    simp only [closeTone, List.length_mapIdx, ← hnext]
    split_ifs <;> rfl

namespace Built

variable {next : ℕ → ℕ}

theorem next_of_lt (h : Built overflow size count sound defs)
    (hplace : ∀ i d, defs[i]? = some d → next (count + i) = d.next) {i : ℕ} {s : List Char}
    (hs : (strtok sound.data)[i]? = some s) (hi : i + 1 < defs.length) :
    next (count + i) = if isSolid overflow s then count + i else count + i + 1 := by
  obtain ⟨d, hd, hnext⟩ := h.next i s hs
  rw [hplace i d hd, hnext]
  exact if_neg hi.ne

theorem next_of_last (h : Built overflow size count sound defs)
    (hplace : ∀ i d, defs[i]? = some d → next (count + i) = d.next) {i : ℕ} {s : List Char}
    (hs : (strtok sound.data)[i]? = some s) (hi : i + 1 = defs.length) :
    next (count + i) =
      (((strtok sound.data).findIdx? (isRepeated overflow)).map (count + ·)).getD
        (if isSolid overflow s then count + i else count + i + 1) := by
  obtain ⟨d, hd, hnext⟩ := h.next i s hs
  rw [hplace i d hd, hnext]
  exact if_pos hi

theorem exists_token (h : Built overflow size count sound defs) {i : ℕ} (hi : i < defs.length) :
    ∃ s, (strtok sound.data)[i]? = some s :=
  ⟨_, List.getElem?_eq_getElem (h.length ▸ hi)⟩

theorem next_step (h : Built overflow size count sound defs)
    (hplace : ∀ i d, defs[i]? = some d → next (count + i) = d.next) (i : ℕ) (hlow : count ≤ i)
    (hhigh : i + 1 < count + defs.length) : next i = i ∨ next i = i + 1 := by
  obtain ⟨j, rfl⟩ := Nat.exists_eq_add_of_le hlow
  obtain ⟨s, hs⟩ := h.exists_token (by omega : j < defs.length)
  rw [h.next_of_lt hplace hs (by omega)]
  split_ifs
  · exact .inl rfl
  · exact .inr rfl

theorem staysIn_of_repeated (h : Built overflow size count sound defs)
    (hplace : ∀ i d, defs[i]? = some d → next (count + i) = d.next) (hne : defs ≠ []) {k : ℕ}
    (hfind : (strtok sound.data).findIdx? (isRepeated overflow) = some k) :
    Trail.StaysIn next count (count + defs.length) := by
  have hpos := List.length_pos_of_ne_nil hne
  obtain ⟨s, hs⟩ := h.exists_token (by omega : defs.length - 1 < defs.length)
  have hlast := h.next_of_last hplace hs (by omega)
  have hk := (List.findIdx?_eq_some_iff_getElem.mp hfind).1
  rw [← h.length] at hk
  have hback : next (count + defs.length - 1) ∈ Set.Ico count (count + defs.length) := by
    rw [Nat.add_sub_assoc hpos, hlast, hfind]
    exact ⟨Nat.le_add_right _ _, Nat.add_lt_add_left hk count⟩
  exact (Trail.staysIn_iff (by omega) (h.next_step hplace) (.inr hback)).mpr (.inl hback)

theorem staysIn_iff_of_none (h : Built overflow size count sound defs)
    (hplace : ∀ i d, defs[i]? = some d → next (count + i) = d.next) (hne : defs ≠ [])
    (hfind : (strtok sound.data).findIdx? (isRepeated overflow) = none) :
    Trail.StaysIn next count (count + defs.length) ↔
      ∃ s ∈ strtok sound.data, isSolid overflow s = true := by
  obtain ⟨m, hm⟩ := Nat.exists_eq_succ_of_ne_zero (List.length_pos_of_ne_nil hne).ne'
  obtain ⟨s, hs⟩ := h.exists_token (by omega : m < defs.length)
  have hlast := h.next_of_last hplace hs hm.symm
  rw [hfind, Option.map_none, Option.getD_none] at hlast
  have hend : count + defs.length - 1 = count + m := by omega
  have hleads : next (count + defs.length - 1) = count + defs.length ∨
      next (count + defs.length - 1) ∈ Set.Ico count (count + defs.length) := by
    rw [hend, hlast]
    split_ifs
    · exact .inr ⟨by omega, by omega⟩
    · exact .inl (by omega)
  rw [Trail.staysIn_iff (by omega) (h.next_step hplace) hleads, hend, hlast]
  constructor
  · rintro (hback | ⟨i, hlow, hhigh, hself⟩)
    · refine ⟨s, List.mem_of_getElem? hs, ?_⟩
      by_contra hsolid
      rw [if_neg hsolid] at hback
      have hlt := hback.2
      omega
    · obtain ⟨j, rfl⟩ := Nat.exists_eq_add_of_le hlow
      obtain ⟨s', hs'⟩ := h.exists_token (by omega : j < defs.length)
      refine ⟨s', List.mem_of_getElem? hs', ?_⟩
      by_contra hsolid
      rw [h.next_of_lt hplace hs' (by omega), if_neg hsolid] at hself
      omega
  · rintro ⟨s', hmem, hsolid⟩
    obtain ⟨j, hs'⟩ := List.mem_iff_getElem?.mp hmem
    have hj := (List.getElem?_eq_some_iff.mp hs').1
    rw [← h.length] at hj
    by_cases hjm : j = m
    · subst hjm
      obtain rfl := Option.some.inj (hs.symm.trans hs')
      rw [if_pos hsolid]
      exact .inl ⟨by omega, by omega⟩
    · refine .inr ⟨count + j, by omega, by omega, ?_⟩
      rw [h.next_of_lt hplace hs' (by omega), if_pos hsolid]

theorem staysIn_iff (h : Built overflow size count sound defs)
    (hplace : ∀ i d, defs[i]? = some d → next (count + i) = d.next) (hne : defs ≠ []) :
    Trail.StaysIn next count (count + defs.length) ↔
      ∃ s ∈ strtok sound.data, isRepeated overflow s = true ∨ isSolid overflow s = true := by
  cases hfind : (strtok sound.data).findIdx? (isRepeated overflow) with
  | some k =>
      obtain ⟨hk, hrep, -⟩ := List.findIdx?_eq_some_iff_getElem.mp hfind
      exact iff_of_true (h.staysIn_of_repeated hplace hne hfind)
        ⟨_, List.getElem_mem hk, .inl hrep⟩
  | none =>
      rw [h.staysIn_iff_of_none hplace hne hfind]
      refine exists_congr fun s => and_congr_right fun hmem => ?_
      rw [List.findIdx?_eq_none_iff.mp hfind s hmem, or_iff_right (by simp)]

theorem next_le (h : Built overflow size count sound defs) {i : ℕ} {d : BuiltDef}
    (hd : defs[i]? = some d) : d.next ≤ count + i + 1 := by
  have hi := (List.getElem?_eq_some_iff.mp hd).1
  obtain ⟨d', hd', hnext⟩ := h.next i _ (List.getElem?_eq_getElem (h.length ▸ hi))
  obtain rfl := Option.some.inj (hd.symm.trans hd')
  have hon : ∀ solid : Prop, [Decidable solid] →
      (if solid then count + i else count + i + 1) ≤ count + i + 1 := by
    intro solid _
    split_ifs <;> omega
  rw [hnext]
  by_cases hlast : i + 1 = defs.length
  · rw [if_pos hlast]
    cases hfind : (strtok sound.data).findIdx? (isRepeated overflow) with
    | none => exact hon _
    | some k =>
        have hk := (List.findIdx?_eq_some_iff_getElem.mp hfind).1
        rw [← h.length, ← hlast] at hk
        exact Nat.add_le_add_left hk.le count
  · rw [if_neg hlast]
    exact hon _

theorem last_out_iff (h : Built overflow size count sound defs) {d : BuiltDef} {s : List Char}
    (hd : defs.getLast? = some d) (hs : (strtok sound.data).getLast? = some s) :
    count + defs.length ≤ d.next ↔
      ¬((∃ s ∈ strtok sound.data, isRepeated overflow s = true) ∨ isSolid overflow s = true) := by
  have hpos : 0 < defs.length := by
    apply List.length_pos_of_ne_nil
    rintro rfl
    cases hd
  rw [List.getLast?_eq_getElem?] at hd hs
  rw [← h.length] at hs
  obtain ⟨d', hd', hnext⟩ := h.next _ s hs
  obtain rfl := Option.some.inj (hd.symm.trans hd')
  rw [hnext, if_pos (by omega)]
  cases hfind : (strtok sound.data).findIdx? (isRepeated overflow) with
  | none =>
      have hnone : ¬∃ s ∈ strtok sound.data, isRepeated overflow s = true := by
        rintro ⟨s', hmem, hrep⟩
        rw [List.findIdx?_eq_none_iff.mp hfind s' hmem] at hrep
        cases hrep
      rw [or_iff_right hnone, Option.map_none, Option.getD_none]
      by_cases hsolid : isSolid overflow s = true
      · rw [if_pos hsolid]
        exact iff_of_false (by omega) (not_not_intro hsolid)
      · rw [if_neg hsolid]
        exact iff_of_true (by omega) hsolid
  | some k =>
      obtain ⟨hk, hrep, -⟩ := List.findIdx?_eq_some_iff_getElem.mp hfind
      rw [← h.length] at hk
      refine iff_of_false ?_ (not_not_intro (.inl ⟨_, List.getElem_mem _, hrep⟩))
      exact Nat.not_le_of_lt (Nat.add_lt_add_left hk count)

end Built

end Build

/-! ## All strings of a zone -/

inductive Registered (overflow : ℤ → CInt) :
    List ToneSound → ℕ → ℕ → List BuiltTone → Prop
  | nil (space count : ℕ) : Registered overflow [] space count []
  | skip {sound : ToneSound} {sounds : List ToneSound} {space count : ℕ} {tones : List BuiltTone}
      (hdata : sound.data = []) (h : Registered overflow sounds space count tones) :
      Registered overflow (sound :: sounds) space count tones
  | cons {sound : ToneSound} {sounds : List ToneSound} {space count : ℕ}
      {defs : List BuiltDef} {tones : List BuiltTone}
      (hbuilt : Built overflow space count sound defs)
      (h : Registered overflow sounds (space - toneDefSize * defs.length) (count + defs.length)
        tones) :
      Registered overflow (sound :: sounds) space count (⟨sound, count, defs⟩ :: tones)

section Zone

variable {overflow : ℤ → CInt} {sounds : List ToneSound} {space count : ℕ}
  {tones : List BuiltTone}

theorem registered_of_ok (h : registerLoop overflow sounds space count = .ok tones) :
    Registered overflow sounds space count tones := by
  induction sounds generalizing space count tones with
  | nil =>
      obtain rfl := Except.ok.inj h
      exact .nil space count
  | cons sound sounds ih =>
      unfold registerLoop at h
      split_ifs at h with hdata
      · exact .skip hdata (ih h)
      · obtain ⟨defs, hbuild, h⟩ := Fallible.exists_of_bind_eq_ok h
        obtain ⟨rest, hrest, rfl⟩ := Fallible.exists_of_map_eq_ok h
        exact .cons (built_of_ok hbuild) (ih hrest)

theorem strtok_nil : strtok [] = [] := by
  decide

theorem zoneDefs_cons (sound : ToneSound) (first : ℕ) (defs : List BuiltDef)
    (tones : List BuiltTone) :
    zoneDefs (⟨sound, first, defs⟩ :: tones) = defs ++ zoneDefs tones :=
  rfl

theorem componentIds_cons (sound : ToneSound) (sounds : List ToneSound) :
    componentIds (sound :: sounds) =
      ((strtok sound.data).map fun _ => sound.toneid) ++ componentIds sounds :=
  rfl

namespace Registered

theorem space_le (h : Registered overflow sounds space count tones) :
    toneDefSize * (zoneDefs tones).length ≤ space := by
  induction h with
  | nil => exact Nat.zero_le _
  | skip _ _ ih => exact ih
  | cons hbuilt _ ih =>
      have hspace := hbuilt.space
      rw [zoneDefs_cons, List.length_append, Nat.mul_add]
      omega

theorem ids_eq (h : Registered overflow sounds space count tones) :
    (zoneDefs tones).map BuiltDef.toneId = componentIds sounds := by
  induction h with
  | nil => rfl
  | skip hdata _ ih => rw [ih, componentIds_cons, hdata, strtok_nil, List.map_nil, List.nil_append]
  | cons hbuilt _ ih => rw [zoneDefs_cons, componentIds_cons, List.map_append, hbuilt.ids, ih]

theorem modulates_iff (h : Registered overflow sounds space count tones) :
    (∀ tone ∈ tones, List.Forall₂ (fun s d => BuiltDef.modulate d = true ↔ '*' ∈ s)
        (strtok tone.sound.data) tone.defs) ↔
      ∀ sound ∈ sounds,
        (∀ s ∈ (strtok sound.data).takeWhile (!isStar overflow ·), '*' ∉ s) ∧
          ∀ s ∈ (strtok sound.data).dropWhile (!isStar overflow ·), '*' ∈ s := by
  induction h with
  | nil => simp
  | skip hdata _ ih => rw [ih, List.forall_mem_cons, hdata, strtok_nil]; simp
  | cons hbuilt _ ih => rw [List.forall_mem_cons, List.forall_mem_cons, ih, hbuilt.modulate]

theorem closed_iff {next : ℕ → ℕ} (h : Registered overflow sounds space count tones)
    (hplace : ∀ i d, (zoneDefs tones)[i]? = some d → next (count + i) = d.next) :
    (∀ tone ∈ tones, tone.defs ≠ [] →
        Trail.StaysIn next tone.first (tone.first + tone.defs.length)) ↔
      ∀ sound ∈ sounds, strtok sound.data ≠ [] →
        ∃ s ∈ strtok sound.data, isRepeated overflow s = true ∨ isSolid overflow s = true := by
  induction h with
  | nil => simp
  | skip hdata _ ih => rw [ih hplace, List.forall_mem_cons, hdata, strtok_nil]; simp
  | @cons sound sounds space count defs tones hbuilt _ ih =>
      have hfirst : ∀ i d, defs[i]? = some d → next (count + i) = d.next := by
        intro i d hd
        apply hplace
        rw [zoneDefs_cons, List.getElem?_append_left (List.getElem?_eq_some_iff.mp hd).1, hd]
      have hrest : ∀ i d, (zoneDefs tones)[i]? = some d →
          next (count + defs.length + i) = d.next := by
        intro i d hd
        rw [Nat.add_assoc]
        apply hplace
        rw [zoneDefs_cons, List.getElem?_append_right (Nat.le_add_right _ _),
          Nat.add_sub_cancel_left, hd]
      have hempty : defs = [] ↔ strtok sound.data = [] := by
        rw [← List.length_eq_zero_iff, hbuilt.length, List.length_eq_zero_iff]
      rw [List.forall_mem_cons, List.forall_mem_cons, ih hrest]
      refine and_congr_left fun _ => ?_
      rw [ne_eq, hempty]
      exact imp_congr_right fun hne => hbuilt.staysIn_iff hfirst (mt hempty.mp hne)

theorem next_le (h : Registered overflow sounds space count tones) {i : ℕ} {d : BuiltDef}
    (hd : (zoneDefs tones)[i]? = some d) : d.next ≤ count + i + 1 := by
  induction h generalizing i with
  | nil => simp [zoneDefs] at hd
  | skip _ _ ih => exact ih hd
  | @cons sound sounds space count defs tones hbuilt _ ih =>
      rw [zoneDefs_cons] at hd
      by_cases hi : i < defs.length
      · rw [List.getElem?_append_left hi] at hd
        exact hbuilt.next_le hd
      · rw [List.getElem?_append_right (not_lt.mp hi)] at hd
        have hle := ih hd
        omega

theorem filter_eq_nil (h : Registered overflow sounds space count tones)
    (hnil : zoneDefs tones = []) :
    (sounds.filter fun sound => strtok sound.data ≠ []) = [] := by
  have hids := h.ids_eq
  rw [hnil, List.map_nil] at hids
  rw [List.filter_eq_nil_iff]
  intro sound hsound
  have hpart := List.flatMap_eq_nil_iff.mp hids.symm sound hsound
  simpa using hpart

theorem last_out_iff (h : Registered overflow sounds space count tones) {d : BuiltDef}
    (hd : (zoneDefs tones).getLast? = some d) :
    ∃ sound s, (sounds.filter fun sound => strtok sound.data ≠ []).getLast? = some sound ∧
      (strtok sound.data).getLast? = some s ∧
      (count + (zoneDefs tones).length ≤ d.next ↔
        ¬((∃ s ∈ strtok sound.data, isRepeated overflow s = true) ∨
          isSolid overflow s = true)) := by
  induction h with
  | nil => cases hd
  | skip hdata _ ih =>
      obtain ⟨last, s, hlast, hs⟩ := ih hd
      refine ⟨last, s, ?_, hs⟩
      rw [List.filter_cons_of_neg (by simp [hdata, strtok_nil]), hlast]
  | @cons sound sounds space count defs tones hbuilt hrest ih =>
      rw [zoneDefs_cons] at hd ⊢
      by_cases hnil : zoneDefs tones = []
      · rw [hnil, List.append_nil] at hd ⊢
        have hne : strtok sound.data ≠ [] := by
          intro hempty
          have hlength := hbuilt.length
          rw [hempty, List.length_nil, List.length_eq_zero_iff] at hlength
          rw [hlength] at hd
          cases hd
        have hs := List.getLast?_eq_some_getLast hne
        refine ⟨sound, _, ?_, hs, hbuilt.last_out_iff hd hs⟩
        rw [List.filter_cons_of_pos (by simpa using hne), hrest.filter_eq_nil hnil]
        rfl
      · rw [List.getLast?_append_of_ne_nil _ hnil] at hd
        obtain ⟨last, s, hlast, hs, hiff⟩ := ih hd
        refine ⟨last, s, ?_, hs, ?_⟩
        · rw [List.filter_cons]
          split_ifs
          · rw [List.getLast?_cons, hlast]
            rfl
          · exact hlast
        · rw [← hiff, List.length_append, Nat.add_assoc]

end Registered

/-! ## Loading what was compiled -/

theorem loadLoop_of_refusesNext {count : ℤ} {tds : List (Option ToneDef)}
    (h : RefusesNext count tds) (zone : ZoneTones) :
    ZoneTones.loadLoop count tds zone = some (.error (-einval)) := by
  induction tds generalizing zone with
  | nil => cases h
  | cons td tds ih =>
      cases td with
      | none => cases h
      | some td =>
          unfold ZoneTones.loadLoop
          obtain hnext | ⟨⟨hlow, hhigh⟩, hrest⟩ := h
          · rw [if_pos hnext]
          · split_ifs with hnext hmax hhead
            · rfl
            · rfl
            · omega
            · exact ih hrest _

/-- Definitions that do not lead out of the zone are passed, up to an unknown number. -/
theorem refusesNext_append {count : ℕ} {init : List BuiltDef} {d : BuiltDef}
    (hcount : count < 2 ^ 31) (hinit : ∀ d ∈ init, d.next < count) (hd : d.next ≤ count) :
    RefusesNext count ((init ++ [d]).map fun d => some d.toToneDef) ↔
      (∀ d ∈ init, KnownId d.toneId) ∧ count ≤ d.next := by
  have hnext : ∀ d : BuiltDef, d.next ≤ count →
      (((count : ℤ) ≤ d.toToneDef.next.toInt ∨ d.toToneDef.next.toInt < 0) ↔ count ≤ d.next) := by
    intro d hle
    have hint : d.toToneDef.next.toInt = d.next := SignedWords.toInt_ofNat (by omega)
    rw [hint]
    omega
  induction init with
  | nil => simp [RefusesNext, hnext d hd]
  | cons d' init ih =>
      have hlt := hinit d' List.mem_cons_self
      have hrest := ih fun e he => hinit e (List.mem_cons_of_mem d' he)
      simp only [List.cons_append, List.map_cons, RefusesNext, hnext d' hlt.le, hrest,
        List.forall_mem_cons]
      constructor
      · rintro (hle | ⟨hknown, hall, hle⟩)
        · omega
        · exact ⟨⟨hknown, hall⟩, hle⟩
      · rintro ⟨⟨hknown, hall⟩, hle⟩
        exact .inr ⟨hknown, hall, hle⟩

theorem loadRefusesNext_iff {defs : List BuiltDef} (hlength : defs.length < 2 ^ 31)
    (memory : Bool) :
    LoadRefusesNext memory (BitVec.ofNat 32 defs.length)
        (fun i => defs[i]?.map BuiltDef.toToneDef) ↔
      memory = true ∧ (defs.length : ℤ) ≤ maxTones ∧
        RefusesNext defs.length (defs.map fun d => some d.toToneDef) := by
  have hint : (BitVec.ofNat 32 defs.length).toInt = defs.length :=
    SignedWords.toInt_ofNat (by omega)
  have hmap : (List.range (BitVec.ofNat 32 defs.length).toInt.toNat).map
      (fun i => defs[i]?.map BuiltDef.toToneDef) = defs.map fun d => some d.toToneDef := by
    rw [hint, Int.toNat_natCast, Lists.map_range_getElem?]
  constructor
  · rintro ⟨-, hfew, hmemory, hnext⟩
    rw [hmap, hint] at hnext
    rw [hint] at hfew
    exact ⟨hmemory, hfew.2, hnext⟩
  · rintro ⟨rfl, hfew, hnext⟩
    refine ⟨?_, by rw [hint]; exact ⟨Int.natCast_nonneg _, hfew⟩, rfl,
      by rw [hmap, hint]; exact hnext⟩
    unfold ZoneTones.ioctlLoadZone
    rw [hmap, hint, if_neg (by omega), if_neg (by simp)]
    exact loadLoop_of_refusesNext hnext _

namespace Registered

theorem length_lt (h : Registered overflow sounds space 0 tones) (hspace : space ≤ maxSize) :
    (zoneDefs tones).length < 2 ^ 31 := by
  have hused := h.space_le
  unfold toneDefSize at hused
  unfold maxSize at hspace
  omega

theorem refusesNext_iff (h : Registered overflow sounds space 0 tones) (hspace : space ≤ maxSize)
    {init : List BuiltDef} {d : BuiltDef} (hdefs : zoneDefs tones = init ++ [d]) :
    RefusesNext (zoneDefs tones).length ((zoneDefs tones).map fun d => some d.toToneDef) ↔
      (∀ id ∈ (componentIds sounds).dropLast, KnownId id) ∧
        (zoneDefs tones).length ≤ d.next := by
  have htotal : (zoneDefs tones).length = init.length + 1 := by
    rw [hdefs, List.length_append, List.length_singleton]
  have hinit : ∀ e ∈ init, e.next < (zoneDefs tones).length := by
    intro e he
    obtain ⟨i, hi⟩ := List.mem_iff_getElem?.mp he
    have hlt := (List.getElem?_eq_some_iff.mp hi).1
    have hnext := h.next_le (i := i) (d := e) (by rw [hdefs, List.getElem?_append_left hlt, hi])
    omega
  have hle : d.next ≤ (zoneDefs tones).length := by
    have hnext := h.next_le (i := init.length) (d := d) (by rw [hdefs]; simp)
    omega
  have hids : (componentIds sounds).dropLast = init.map BuiltDef.toneId := by
    rw [← h.ids_eq, hdefs, List.map_append]
    simp
  have happend := refusesNext_append (h.length_lt hspace) hinit hle
  rw [← hdefs] at happend
  rw [happend, hids, List.forall_mem_map]

/-- The driver refuses no `next` pointer exactly when the last string ends well. -/
theorem loads_iff (h : Registered overflow sounds space 0 tones) (hspace : space ≤ maxSize) :
    (∀ memory, ¬LoadRefusesNext memory (BitVec.ofNat 32 (zoneDefs tones).length)
        fun i => (zoneDefs tones)[i]?.map BuiltDef.toToneDef) ↔ EndsWell overflow sounds := by
  simp only [loadRefusesNext_iff (h.length_lt hspace)]
  rcases List.eq_nil_or_concat (zoneDefs tones) with hnil | ⟨init, d, hdefs⟩
  · refine iff_of_true ?_ ?_
    · rw [hnil]
      rintro memory ⟨-, -, hnext⟩
      exact hnext
    · intro sound hsound
      rw [h.filter_eq_nil hnil] at hsound
      cases hsound
  · rw [List.concat_eq_append] at hdefs
    obtain ⟨last, s, hlast, hs, hout⟩ := h.last_out_iff (d := d) (by rw [hdefs]; simp)
    have hcount : (componentIds sounds).length = (zoneDefs tones).length := by
      rw [← h.ids_eq, List.length_map]
    rw [Nat.zero_add] at hout
    simp only [EndsWell, hlast, h.refusesNext_iff hspace hdefs, hout, hcount]
    constructor
    · intro hno sound heq
      obtain rfl := Option.some.inj heq
      by_contra hbad
      push Not at hbad
      obtain ⟨hrep, hsolid, hfew, hknown⟩ := hbad
      exact hno true ⟨rfl, hfew, hknown, not_or.mpr ⟨by push Not; exact hrep, hsolid s hs⟩⟩
    · rintro hends memory ⟨-, hfew, hknown, hbad⟩
      obtain hrep | ⟨s', hs', hsolid⟩ | hmany | ⟨id, hid, hunknown⟩ := hends last rfl
      · exact hbad (.inl hrep)
      · obtain rfl := Option.some.inj (hs.symm.trans hs')
        exact hbad (.inr hsolid)
      · exact absurd hmany (not_lt.mpr hfew)
      · exact hunknown (hknown id hid)

end Registered

/-- A zone is compiled well exactly when its strings are well written and the last one ends
well. -/
theorem tone_strings_compile_iff (overflow : ℤ → CInt) {sounds : List ToneSound}
    {tones : List BuiltTone} (h : registerZone overflow sounds = .ok tones) :
    CompiledWell tones ↔
      (∀ sound ∈ sounds, WellWritten overflow sound.data) ∧ EndsWell overflow sounds := by
  have hreg := registered_of_ok h
  have hplace : ∀ i d, (zoneDefs tones)[i]? = some d → followingDef tones (0 + i) = d.next := by
    intro i d hd
    rw [Nat.zero_add, followingDef, hd]
    rfl
  have hmodulates := hreg.modulates_iff
  have hclosed := hreg.closed_iff hplace
  have hloads := hreg.loads_iff (Nat.sub_le _ _)
  constructor
  · intro hwell
    refine ⟨?_, hloads.mp hwell.loads⟩
    intro sound hsound
    obtain ⟨hplain, hstarred⟩ := hmodulates.mp hwell.modulates sound hsound
    exact ⟨hplain, hstarred, hclosed.mp hwell.closed sound hsound⟩
  · rintro ⟨hwritten, hends⟩
    refine ⟨hmodulates.mpr ?_, hclosed.mpr ?_, hloads.mpr hends⟩
    · intro sound hsound
      exact ⟨(hwritten sound hsound).plain, (hwritten sound hsound).starred⟩
    · intro sound hsound
      exact (hwritten sound hsound).stays

/-- A dial tone of two frequencies, and a tone that begins with a part played once and goes on
with two modulated ones. -/
def mixedZone : List ToneSound :=
  [⟨0, "350+440".toList⟩, ⟨1, "!950/330,500*100/500,400*50/250".toList⟩]

theorem tone_strings_compile_mixed : ∃ tones,
    registerZone (fun _ => 0) mixedZone = .ok tones ∧
      ((zoneDefs tones).map BuiltDef.modulate = [false, false, true, true] ∧
        (zoneDefs tones).map BuiltDef.next = [0, 2, 3, 2]) ∧
      CompiledWell tones := by
  have hok : registerZone (fun _ => 0) mixedZone =
      .ok [⟨⟨0, "350+440".toList⟩, 0, [⟨0, 0, 8000, false, 350, 440⟩]⟩,
        ⟨⟨1, "!950/330,500*100/500,400*50/250".toList⟩, 1,
          [⟨1, 2, 2640, false, 950, 0⟩, ⟨1, 3, 4000, true, 500, 100⟩,
            ⟨1, 2, 2000, true, 400, 50⟩]⟩] := by
    decide +kernel
  refine ⟨_, hok, ⟨rfl, rfl⟩, (tone_strings_compile_iff _ hok).mpr ⟨?_, ?_⟩⟩
  · rw [mixedZone, List.forall_mem_cons, List.forall_mem_singleton]
    exact ⟨⟨by decide +kernel, by decide +kernel, by decide +kernel⟩,
      ⟨by decide +kernel, by decide +kernel, by decide +kernel⟩⟩
  · intro sound hsound
    have hlast : mixedZone.getLast? = some sound := hsound
    obtain rfl := Option.some.inj hlast
    exact .inl (by decide +kernel)

/-- The busy tone of a zone of the library: the silence in it is modulated, too. -/
def busyTone : ToneSound := ⟨1, "500*100/500,0/500".toList⟩

def onceTone : ToneSound := ⟨7, "!950/330".toList⟩

/-- The silence after a modulated tone is modulated. A tone that is not repeated is accepted,
but it leads to a definition that does not exist, and the driver refuses it. -/
theorem tone_strings_miscompiled :
    (∃ tones, registerZone (fun _ => 0) [busyTone] = .ok tones ∧
      (zoneDefs tones).map BuiltDef.modulate = [true, true] ∧ ¬CompiledWell tones) ∧
    ∃ tones, registerZone (fun _ => 0) [onceTone] = .ok tones ∧
      (zoneDefs tones).map BuiltDef.next = [1] ∧
      ZoneTones.ioctlLoadZone true 1 (fun i => (zoneDefs tones)[i]?.map BuiltDef.toToneDef) =
        some (.error (-einval)) ∧ ¬CompiledWell tones := by
  have hbusy : registerZone (fun _ => 0) [busyTone] =
      .ok [⟨busyTone, 0, [⟨1, 1, 4000, true, 500, 100⟩, ⟨1, 0, 4000, true, 0, 0⟩]⟩] := by
    decide +kernel
  have honce : registerZone (fun _ => 0) [onceTone] =
      .ok [⟨onceTone, 0, [⟨7, 1, 2640, false, 950, 0⟩]⟩] := by
    decide +kernel
  refine ⟨⟨_, hbusy, rfl, ?_⟩, ⟨_, honce, rfl, rfl, ?_⟩⟩
  · intro hwell
    have htokens : strtok busyTone.data = ["500*100/500".toList, "0/500".toList] := by
      decide +kernel
    have hmodulates := hwell.modulates _ List.mem_cons_self
    rw [htokens, List.forall₂_cons, List.forall₂_cons] at hmodulates
    exact absurd (hmodulates.2.1.mp rfl) (by decide +kernel)
  · intro hwell
    have hstays := hwell.closed _ List.mem_cons_self (List.cons_ne_nil _ _) 1
    exact absurd hstays.2 (by decide +kernel)

end Zone

end Slic
end WirelessMesh
