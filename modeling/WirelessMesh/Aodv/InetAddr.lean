import WirelessMesh.Lib.ByteOrder
import WirelessMesh.Lib.Numerals
import WirelessMesh.Routes.Protocol
import Mathlib.Data.List.Forall2

/-!
# Addresses as text

The module has `inet_ntoa` and `inet_aton` of its own. An address is printed as four decimal
numbers with dots between them. It is read from one to four integer constants with dots between
them, of which the last one fills the bytes that are left. The text ends at the end of the
string or at white space.
-/

namespace WirelessMesh
namespace Aodv

open Numerals

/-! ## The characters of the kernel -/

def isascii (c : Char) : Bool := c.toNat ≤ 0x7f

def isdigit (c : Char) : Bool := '0' ≤ c && c ≤ '9'

def islower (c : Char) : Bool := 'a' ≤ c && c ≤ 'z'

def isxdigit (c : Char) : Bool := isdigit c || 'a' ≤ c && c ≤ 'f' || 'A' ≤ c && c ≤ 'F'

def isspace (c : Char) : Bool := c ∈ [' ', '\t', '\n', '\x0b', '\x0c', '\r']

/-! ## Printing and reading -/

/-- `inet_ntoa`, without the zero at the end. The bytes are printed as they lie in memory. -/
def inetNtoa (order : ByteOrder) (ina : U32) : List Char :=
  List.intercalate ['.'] ((order.store32 ina).map fun byte => Nat.toDigits 10 byte.toNat)

def scanBase : List Char → ℕ × List Char
  | '0' :: 'x' :: cp => (16, cp)
  | '0' :: 'X' :: cp => (16, cp)
  | '0' :: cp => (8, cp)
  | cp => (10, cp)

def scanDigits (base : ℕ) : U32 → List Char → U32 × List Char
  | val, [] => (val, [])
  | val, c :: cp =>
      if isascii c && isdigit c then
        scanDigits base (val * BitVec.ofNat 32 base + BitVec.ofNat 32 (c.toNat - '0'.toNat)) cp
      else if base == 16 && isascii c && isxdigit c then
        let first := if islower c then 'a' else 'A'
        scanDigits base ((val <<< 4) + BitVec.ofNat 32 (c.toNat + 10 - first.toNat)) cp
      else (val, c :: cp)

def scanPart (cp : List Char) : U32 × List Char :=
  let (base, cp) := scanBase cp
  scanDigits base 0 cp

/-- The outer loop of `inet_aton`: `parts`, the last `val`, and what follows. `room` is the number
of entries of `parts` that may still be filled. -/
def scanParts : ℕ → List U32 → List Char → Option (List U32 × U32 × List Char)
  | room, parts, cp =>
      let (val, cp) := scanPart cp
      match room, cp with
      | 0, '.' :: _ => none
      | room + 1, '.' :: cp => if val > 0xff then none else scanParts room (parts ++ [val]) cp
      | _, cp => some (parts, val, cp)

def concoct (parts : List U32) (val : U32) : Option U32 :=
  match parts with
  | [a] => if val > 0xffffff then none else some (val ||| a <<< 24)
  | [a, b] => if val > 0xffff then none else some (val ||| (a <<< 24 ||| b <<< 16))
  | [a, b, c] =>
      if val > 0xff then none else some (val ||| (a <<< 24 ||| b <<< 16 ||| c <<< 8))
  | _ => some val

/-- What follows the last number is another character, and no white space. -/
def trailing (cp : List Char) : Bool :=
  match cp with
  | [] => false
  | c :: _ => c != '\x00' && (!isascii c || !isspace c)

/-- `inet_aton`: the return value, and what lies at `addr` unless it is a null pointer. -/
def inetAton (order : ByteOrder) (cp : List Char) (addr : Option U32) : ℤ × Option U32 :=
  match scanParts 3 [] cp with
  | none => (0, addr)
  | some (parts, val, cp) =>
      if trailing cp then (0, addr)
      else
        match concoct parts val with
        | none => (0, addr)
        | some val => (1, addr.map fun _ => order.hton32 val)

/-! ## What a text denotes -/

/-- The parts between the dots, up to white space or the end of the string. -/
def dottedParts (s : List Char) : List (List Char) :=
  (s.takeWhile fun c => c != '\x00' && !isspace c).splitOn '.'

/-- One byte for each number but the last, and all other bytes for the last. -/
def placed : List ℕ → Option ℕ
  | [a] => some a
  | [a, b] => some (a * 2 ^ 24 + b)
  | [a, b, c] => some (a * 2 ^ 24 + b * 2 ^ 16 + c)
  | [a, b, c, d] => some (a * 2 ^ 24 + b * 2 ^ 16 + c * 2 ^ 8 + d)
  | _ => none

def Denotes (s : List Char) (n : ℕ) : Prop :=
  ∃ values, List.Forall₂ Numeral (dottedParts s) values ∧ placed values = some n

/-! ## One number -/

def taken (base : ℕ) (c : Char) : Bool :=
  isascii c && isdigit c || base == 16 && isascii c && isxdigit c

theorem weight_of_isdigit {c : Char} (h : isdigit c = true) :
    weight c = c.toNat - '0'.toNat := by
  have hrange : '0' ≤ c ∧ c ≤ '9' := by simpa [isdigit] using h
  rw [weight, digit, if_pos hrange, Option.getD_some]

theorem weight_of_isxdigit {c : Char} (hdigit : isdigit c = false) (h : isxdigit c = true) :
    weight c = c.toNat + 10 - (if islower c then 'a' else 'A').toNat := by
  have hrange : ¬('0' ≤ c ∧ c ≤ '9') := by simpa [isdigit] using hdigit
  have hletter : ('a' ≤ c ∧ c ≤ 'f') ∨ ('A' ≤ c ∧ c ≤ 'F') := by
    simpa [isxdigit, hdigit] using h
  rw [weight, digit, if_neg hrange]
  simp only [islower, Bool.and_eq_true, decide_eq_true_eq]
  simp only [char_le_iff, Char.reduceToNat] at hletter ⊢
  by_cases hlow : 97 ≤ c.toNat ∧ c.toNat ≤ 102
  · rw [if_pos hlow, if_pos ⟨hlow.1, by omega⟩, Option.getD_some]
    simp only [Char.reduceToNat]
    omega
  · have hup := hletter.resolve_left hlow
    rw [if_neg hlow, if_pos hup, if_neg (by omega), Option.getD_some]
    simp only [Char.reduceToNat]
    omega

theorem shiftLeft_four (val : U32) : val <<< 4 = val * BitVec.ofNat 32 16 := by
  bv_omega

theorem scanDigits_spec (base : ℕ) (val : U32) (cp : List Char) : ∃ digits,
    cp = digits ++ (scanDigits base val cp).2 ∧ (∀ c ∈ digits, taken base c = true) ∧
      (scanDigits base val cp).1 = digits.foldl (pushWord base) val := by
  induction cp generalizing val with
  | nil => exact ⟨[], rfl, nofun, rfl⟩
  | cons c cp ih =>
      -- A character that is taken is pushed into the word.
      have hpush (htaken : taken base c = true)
          (h : scanDigits base val (c :: cp) = scanDigits base (pushWord base val c) cp) :
          ∃ digits, c :: cp = digits ++ (scanDigits base val (c :: cp)).2 ∧
            (∀ c ∈ digits, taken base c = true) ∧
            (scanDigits base val (c :: cp)).1 = digits.foldl (pushWord base) val := by
        obtain ⟨digits, hcp, hall, hval⟩ := ih (pushWord base val c)
        rw [h]
        exact ⟨c :: digits, congrArg (c :: ·) hcp, List.forall_mem_cons.mpr ⟨htaken, hall⟩, hval⟩
      by_cases hdigit : (isascii c && isdigit c) = true
      · apply hpush
        · simp [taken, hdigit]
        · rw [scanDigits, if_pos hdigit, pushWord,
            weight_of_isdigit (Bool.and_eq_true_iff.mp hdigit).2]
      · by_cases hletter : (base == 16 && isascii c && isxdigit c) = true
        · obtain ⟨⟨hbase, hascii⟩, hx⟩ : (base = 16 ∧ isascii c = true) ∧ isxdigit c = true := by
            simpa using hletter
          have hnot : isdigit c = false := by simpa [hascii] using hdigit
          apply hpush
          · simp [taken, hletter]
          · rw [scanDigits, if_neg hdigit, if_pos hletter, pushWord, shiftLeft_four, hbase,
              weight_of_isxdigit hnot hx]
        · rw [scanDigits, if_neg hdigit, if_neg hletter]
          exact ⟨[], rfl, nofun, rfl⟩

structure Inside (c : Char) : Prop where
  ne_dot : c ≠ '.'
  text : (c != '\x00' && !isspace c) = true

theorem inside_of_isxdigit {c : Char} (h : isxdigit c = true) : Inside c := by
  have hne {x : Char} (hx : isxdigit x = false) : c ≠ x := by
    rintro rfl
    rw [h] at hx
    cases hx
  refine ⟨hne (by decide), ?_⟩
  simp [isspace, hne (x := '\x00') (by decide), hne (x := ' ') (by decide),
    hne (x := '\t') (by decide), hne (x := '\n') (by decide), hne (x := '\x0b') (by decide),
    hne (x := '\x0c') (by decide), hne (x := '\r') (by decide)]

theorem isxdigit_of_taken {base : ℕ} {c : Char} (h : taken base c = true) :
    isxdigit c = true := by
  rw [taken, Bool.or_eq_true_iff] at h
  rcases h with h | h
  · rw [isxdigit, (Bool.and_eq_true_iff.mp h).2]
    rfl
  · exact (Bool.and_eq_true_iff.mp h).2

theorem isxdigit_of_digit {c : Char} {d : ℕ} (h : digit c = some d) : isxdigit c = true := by
  rw [digit] at h
  split_ifs at h with hdigit hlow hup
  · simp [isxdigit, isdigit, hdigit]
  · simp [isxdigit, hlow]
  · simp [isxdigit, hup]

def partValue (part : List Char) : ℕ := value (scanBase part).1 (scanBase part).2

theorem scanBase_octal {cp : List Char} (h : ∀ c ∈ cp.head?, c ≠ 'x' ∧ c ≠ 'X') :
    scanBase ('0' :: cp) = (8, cp) := by
  apply scanBase.eq_3
  · rintro rest rfl
    exact (h 'x' rfl).1 rfl
  · rintro rest rfl
    exact (h 'X' rfl).2 rfl

theorem ne_mark_of_isxdigit {c : Char} (h : isxdigit c = true) : c ≠ 'x' ∧ c ≠ 'X' := by
  constructor
  · rintro rfl
    exact absurd h (by decide)
  · rintro rfl
    exact absurd h (by decide)

theorem scanBase_decimal {cp : List Char} (h : cp.head? ≠ some '0') : scanBase cp = (10, cp) := by
  fun_cases scanBase cp with
  | case1 rest => exact absurd rfl h
  | case2 rest => exact absurd rfl h
  | case3 rest => exact absurd rfl h
  | case4 => rfl

theorem scanBase_spec (cp : List Char) : ∃ mark, cp = mark ++ (scanBase cp).2 ∧
    (∀ c ∈ mark, Inside c) ∧ ∀ digits, digits <+: (scanBase cp).2 →
      (∀ c ∈ digits, isxdigit c = true) →
        scanBase (mark ++ digits) = ((scanBase cp).1, digits) := by
  have hzero : Inside '0' := inside_of_isxdigit (by decide)
  fun_cases scanBase cp with
  | case1 rest =>
      refine ⟨['0', 'x'], rfl, ?_, fun _ _ _ => rfl⟩
      exact List.forall_mem_cons.mpr ⟨hzero, by simpa using ⟨by decide, by decide⟩⟩
  | case2 rest =>
      refine ⟨['0', 'X'], rfl, ?_, fun _ _ _ => rfl⟩
      exact List.forall_mem_cons.mpr ⟨hzero, by simpa using ⟨by decide, by decide⟩⟩
  | case3 rest =>
      refine ⟨['0'], rfl, by simpa using hzero, ?_⟩
      intro digits _ hall
      apply scanBase_octal
      intro c hc
      exact ne_mark_of_isxdigit (hall c (List.mem_of_mem_head? hc))
  | case4 _ _ _ hzeros =>
      refine ⟨[], rfl, nofun, ?_⟩
      intro digits hpre _
      apply scanBase_decimal
      intro hhead
      obtain ⟨rest, rfl⟩ := hpre
      obtain ⟨digits, rfl⟩ := List.head?_eq_some_iff.mp hhead
      exact hzeros _ rfl

theorem scanPart_spec (cp : List Char) : ∃ part, cp = part ++ (scanPart cp).2 ∧
    (∀ c ∈ part, Inside c) ∧ (scanPart cp).1 = BitVec.ofNat 32 (partValue part) := by
  obtain ⟨mark, hcp, hmark, hbase⟩ := scanBase_spec cp
  obtain ⟨digits, hdigits, hall, hval⟩ := scanDigits_spec (scanBase cp).1 0 (scanBase cp).2
  have hx : ∀ c ∈ digits, isxdigit c = true := fun c hc => isxdigit_of_taken (hall c hc)
  have hpart : scanBase (mark ++ digits) = ((scanBase cp).1, digits) :=
    hbase digits ⟨_, hdigits.symm⟩ hx
  refine ⟨mark ++ digits, ?_, ?_, ?_⟩
  · rw [List.append_assoc]
    exact hcp.trans (congrArg (mark ++ ·) hdigits)
  · intro c hc
    rcases List.mem_append.mp hc with hc | hc
    · exact hmark c hc
    · exact inside_of_isxdigit (hx c hc)
  · rw [partValue, hpart, ← foldl_pushWord_zero]
    exact hval

theorem partValue_of_numeral {part : List Char} {n : ℕ} (h : Numeral part n) :
    partValue part = n := by
  cases h with
  | decimal hfirst hdigits =>
      rw [partValue, scanBase_decimal (by simpa using hfirst)]
  | octal hdigits =>
      rw [partValue, scanBase_octal]
      intro c hc
      obtain ⟨d, hd, -⟩ := hdigits c (List.mem_of_mem_head? hc)
      exact ne_mark_of_isxdigit (isxdigit_of_digit hd)
  | hexadecimal hmark hsome hdigits =>
      rcases hmark with rfl | rfl
      · rfl
      · rfl

/-! ## All numbers -/

section Text

variable {part rest : List Char}

theorem dottedParts_append_dot (h : ∀ c ∈ part, Inside c) :
    dottedParts (part ++ '.' :: rest) = part :: dottedParts rest := by
  rw [dottedParts, List.takeWhile_append_of_pos fun c hc => (h c hc).text,
    List.takeWhile_cons_of_pos (by decide)]
  apply List.splitOnP_append_cons_of_forall_mem
  · intro c hc
    simpa using (h c hc).ne_dot
  · decide

theorem dottedParts_last (h : ∀ c ∈ part, Inside c) (hrest : trailing rest = false) :
    dottedParts (part ++ rest) = [part] := by
  have hend : rest.takeWhile (fun c => c != '\x00' && !isspace c) = [] := by
    cases rest with
    | nil => rfl
    | cons c rest =>
        apply List.takeWhile_cons_of_neg
        intro htext
        simp_all [trailing]
  rw [dottedParts, List.takeWhile_append_of_pos fun c hc => (h c hc).text, hend, List.append_nil]
  apply List.splitOnP_eq_singleton
  intro c hc
  simpa using (h c hc).ne_dot

def partWord (part : List Char) : U32 := BitVec.ofNat 32 (partValue part)

theorem scanParts_dot {cp after : List Char} {val : U32} (h : scanPart cp = (val, '.' :: after))
    (room : ℕ) (parts : List U32) : scanParts room parts cp =
      if room = 0 ∨ val > 0xff then none else scanParts (room - 1) (parts ++ [val]) after := by
  rw [scanParts, h]
  cases room with
  | zero => rfl
  | succ room => simp

theorem scanParts_end {cp after : List Char} {val : U32} (h : scanPart cp = (val, after))
    (hdot : after.head? ≠ some '.') (room : ℕ) (parts : List U32) :
    scanParts room parts cp = some (parts, val, after) := by
  rw [scanParts, h]
  dsimp only
  split
  · exact absurd rfl hdot
  · exact absurd rfl hdot
  · rfl

theorem scanParts_spec {room : ℕ} {parts parts' : List U32} {cp : List Char} {val : U32}
    (h : scanParts room parts cp = some (parts', val, rest)) (hrest : trailing rest = false) :
    ∃ front last, dottedParts cp = front ++ [last] ∧ parts' = parts ++ front.map partWord ∧
      val = partWord last ∧ front.length ≤ room ∧
      ∀ part ∈ front, (partWord part).toNat ≤ 255 := by
  obtain ⟨part, hcp, hinside, hval⟩ := scanPart_spec cp
  obtain ⟨word, after, hscan⟩ : ∃ word after, scanPart cp = (word, after) := ⟨_, _, rfl⟩
  rw [hscan] at hcp hval
  have hword : word = partWord part := hval
  by_cases hdot : after.head? = some '.'
  · obtain ⟨after, rfl⟩ := List.head?_eq_some_iff.mp hdot
    rw [scanParts_dot hscan] at h
    split_ifs at h with hroom
    rw [not_or, gt_iff_lt, BitVec.not_lt, BitVec.le_def] at hroom
    obtain ⟨front, last, hparts, hparts', hlast, hlen, hfront⟩ := scanParts_spec h hrest
    refine ⟨part :: front, last, ?_, ?_, hlast, ?_, ?_⟩
    · rw [hcp, dottedParts_append_dot hinside, hparts]
      rfl
    · rw [hparts', hword, List.append_assoc]
      rfl
    · rw [List.length_cons]
      omega
    · exact List.forall_mem_cons.mpr ⟨hword ▸ hroom.2, hfront⟩
  · rw [scanParts_end hscan hdot] at h
    obtain ⟨rfl, rfl, rfl⟩ : parts = parts' ∧ word = val ∧ after = rest := by simpa using h
    refine ⟨[], part, ?_, by simp, hword, Nat.zero_le room, nofun⟩
    rw [hcp, dottedParts_last hinside hrest]
    rfl
termination_by room

/-! ## The address -/

theorem toNat_or_shiftLeft {byte low : U32} {k : ℕ} (hbyte : byte.toNat ≤ 255) (hk : k ≤ 24)
    (hlow : low.toNat < 2 ^ k) : (low ||| byte <<< k).toNat = byte.toNat * 2 ^ k + low.toNat := by
  have hfits : byte.toNat <<< k < 2 ^ 32 := by
    rw [Nat.shiftLeft_eq]
    calc byte.toNat * 2 ^ k ≤ 255 * 2 ^ 24 :=
          Nat.mul_le_mul hbyte (Nat.pow_le_pow_right (by decide) hk)
      _ < 2 ^ 32 := by decide
  rw [BitVec.toNat_or, BitVec.toNat_shiftLeft, Nat.mod_eq_of_lt hfits, Nat.or_comm,
    ← Nat.shiftLeft_add_eq_or_of_lt hlow, Nat.shiftLeft_eq]

theorem toNat_or_shiftLeft_lt {byte low : U32} {k : ℕ} (hbyte : byte.toNat ≤ 255) (hk : k ≤ 24)
    (hlow : low.toNat < 2 ^ k) : (low ||| byte <<< k).toNat < 2 ^ (k + 8) := by
  rw [toNat_or_shiftLeft hbyte hk hlow, Nat.pow_add]
  have hle : byte.toNat * 2 ^ k ≤ 255 * 2 ^ k := Nat.mul_le_mul_right _ hbyte
  omega

theorem toNat_concoct {parts : List U32} {val addr : U32} (h : concoct parts val = some addr)
    (hlen : parts.length ≤ 3) (hparts : ∀ x ∈ parts, x.toNat ≤ 255) :
    placed (parts.map BitVec.toNat ++ [val.toNat]) = some addr.toNat := by
  have hbound {limit : U32} (hval : ¬val > limit) : val.toNat ≤ limit.toNat := by
    rwa [gt_iff_lt, BitVec.not_lt, BitVec.le_def] at hval
  match parts, hlen, hparts with
  | [], _, _ =>
      obtain rfl := Option.some.inj h
      rfl
  | [a], _, hparts =>
      rw [concoct] at h
      split_ifs at h with hval
      obtain rfl := Option.some.inj h
      have hlow : val.toNat < 2 ^ 24 := lt_of_le_of_lt (hbound hval) (by decide)
      rw [toNat_or_shiftLeft (hparts a (by simp)) le_rfl hlow]
      rfl
  | [a, b], _, hparts =>
      rw [concoct] at h
      split_ifs at h with hval
      obtain rfl := Option.some.inj h
      have hb : b.toNat ≤ 255 := hparts b (by simp)
      have hlow : val.toNat < 2 ^ 16 := lt_of_le_of_lt (hbound hval) (by decide)
      have hlow' := toNat_or_shiftLeft_lt hb (by decide) hlow
      rw [BitVec.or_comm (a <<< 24), ← BitVec.or_assoc,
        toNat_or_shiftLeft (hparts a (by simp)) le_rfl hlow',
        toNat_or_shiftLeft hb (by decide) hlow, ← Nat.add_assoc]
      rfl
  | [a, b, c], _, hparts =>
      rw [concoct] at h
      split_ifs at h with hval
      obtain rfl := Option.some.inj h
      have hb : b.toNat ≤ 255 := hparts b (by simp)
      have hc : c.toNat ≤ 255 := hparts c (by simp)
      have hlow : val.toNat < 2 ^ 8 := lt_of_le_of_lt (hbound hval) (by decide)
      have hlow' := toNat_or_shiftLeft_lt hc (by decide) hlow
      have hlow'' := toNat_or_shiftLeft_lt hb (by decide) hlow'
      have horder : val ||| (a <<< 24 ||| b <<< 16 ||| c <<< 8) =
          val ||| c <<< 8 ||| b <<< 16 ||| a <<< 24 := by
        rw [BitVec.or_comm (a <<< 24 ||| b <<< 16), ← BitVec.or_assoc, BitVec.or_comm (a <<< 24),
          ← BitVec.or_assoc]
      rw [horder, toNat_or_shiftLeft (hparts a (by simp)) le_rfl hlow'',
        toNat_or_shiftLeft hb (by decide) hlow', toNat_or_shiftLeft hc (by decide) hlow,
        ← Nat.add_assoc, ← Nat.add_assoc]
      rfl

theorem placed_mod_eq_iff {values : List ℕ} {n : ℕ}
    (h : placed (values.map (· % 2 ^ 32)) = some n) :
    placed values = some n ↔ ∀ v ∈ values, v < 2 ^ 32 := by
  rcases values with _ | ⟨a, _ | ⟨b, _ | ⟨c, _ | ⟨d, _ | _⟩⟩⟩⟩
  all_goals
    simp only [List.map_cons, List.map_nil, placed, Option.some.injEq, reduceCtorEq] at h
  all_goals
    simp only [placed, Option.some.injEq, List.forall_mem_cons, List.not_mem_nil, false_imp_iff,
      implies_true, and_true]
    omega

end Text

/-- What `inet_aton` stores when it succeeds: the numbers of the parts, without their high
bits. -/
theorem inetAton_spec {order : ByteOrder} {s : List Char} {addr addr' : Option U32}
    (h : inetAton order s addr = (1, addr')) : ∃ word : U32,
      addr' = (addr.map fun _ => order.hton32 word) ∧
      placed (((dottedParts s).map partValue).map (· % 2 ^ 32)) = some word.toNat := by
  rw [inetAton] at h
  have hne {x : Option U32} : ((0, addr) : ℤ × Option U32) ≠ (1, x) := by simp
  split at h
  · exact absurd h hne
  · rename_i parts val rest hparts
    split_ifs at h with htrailing
    · exact absurd h hne
    split at h
    · exact absurd h hne
    · rename_i word hword
      obtain ⟨front, last, hdotted, rfl, rfl, hlen, hbytes⟩ :=
        scanParts_spec hparts (Bool.eq_false_iff.mpr htrailing)
      refine ⟨word, (Prod.mk.inj h).2.symm, ?_⟩
      rw [List.nil_append] at hword
      have hplaced := toNat_concoct hword (by simpa using hlen) (by simpa using hbytes)
      rw [← hplaced, hdotted]
      simp [partWord, Function.comp_def]

theorem map_partValue_of_forall₂ {parts : List (List Char)} {values : List ℕ}
    (h : List.Forall₂ Numeral parts values) : parts.map partValue = values := by
  induction h with
  | nil => rfl
  | cons hnumeral _ ih => rw [List.map_cons, partValue_of_numeral hnumeral, ih]

theorem placed_partValue_iff {order : ByteOrder} {s : List Char} {old a : U32}
    (h : inetAton order s (some old) = (1, some a)) :
    placed ((dottedParts s).map partValue) = some (order.hton32 a).toNat ↔
      ∀ part ∈ dottedParts s, partValue part < 2 ^ 32 := by
  obtain ⟨word, hword, hplaced⟩ := inetAton_spec h
  obtain rfl : a = order.hton32 word := Option.some.inj hword
  rw [ByteOrder.hton32_hton32, placed_mod_eq_iff hplaced]
  exact List.forall_mem_map

/-- The stored address is what the text denotes exactly when each part is an integer constant
that fits in a word. -/
theorem denotes_iff {order : ByteOrder} {s : List Char} {old a : U32}
    (h : inetAton order s (some old) = (1, some a)) :
    Denotes s (order.hton32 a).toNat ↔
      ∀ part ∈ dottedParts s, ∃ n, Numeral part n ∧ n < 2 ^ 32 := by
  have hfits := placed_partValue_iff h
  constructor
  · rintro ⟨values, hnumerals, hvalues⟩ part hpart
    obtain rfl := map_partValue_of_forall₂ hnumerals
    rw [List.forall₂_map_right_iff, List.forall₂_same] at hnumerals
    exact ⟨partValue part, hnumerals part hpart, hfits.mp hvalues part hpart⟩
  · intro hparts
    refine ⟨(dottedParts s).map partValue, ?_, hfits.mpr ?_⟩
    · rw [List.forall₂_map_right_iff, List.forall₂_same]
      intro part hpart
      obtain ⟨n, hnumeral, -⟩ := hparts part hpart
      rwa [partValue_of_numeral hnumeral]
    · intro part hpart
      obtain ⟨n, hnumeral, hlt⟩ := hparts part hpart
      rwa [partValue_of_numeral hnumeral]

/-! ## Printing -/

theorem scanDigits_append (base : ℕ) {digits : List Char}
    (h : ∀ c ∈ digits, (isascii c && isdigit c) = true) (val : U32) (after : List Char) :
    scanDigits base val (digits ++ after) =
      scanDigits base (digits.foldl (pushWord base) val) after := by
  induction digits generalizing val with
  | nil => rfl
  | cons c digits ih =>
      obtain ⟨hc, hrest⟩ := List.forall_mem_cons.mp h
      rw [List.cons_append, scanDigits, if_pos hc,
        ← weight_of_isdigit (Bool.and_eq_true_iff.mp hc).2]
      exact ih hrest (pushWord base val c)

theorem isdigit_of_mem_toDigits {n : ℕ} {c : Char} (h : c ∈ Nat.toDigits 10 n) :
    (isascii c && isdigit c) = true := by
  have hdigit : c.isDigit = true := Nat.isDigit_of_mem_toDigits (by decide) (by decide) h
  obtain ⟨hge, hle⟩ : 48 ≤ c.toNat ∧ c.toNat ≤ 57 := by
    simpa [Char.isDigit, UInt32.le_iff_toNat_le] using hdigit
  have hascii : c.toNat ≤ 127 := by omega
  simp [isascii, isdigit, char_le_iff, hge, hle, hascii]

theorem value_toDigits (n : ℕ) : value 10 (Nat.toDigits 10 n) = n := by
  have hread : Nat.ofDigitChars 10 (Nat.toDigits 10 n) 0 = n :=
    Nat.ofDigitChars_toDigits (by decide) (by decide)
  refine Eq.trans ?_ hread
  rw [value_eq_foldl, Nat.ofDigitChars]
  apply List.foldl_ext
  intro m c hc
  have hdigit := (Bool.and_eq_true_iff.mp (isdigit_of_mem_toDigits hc)).2
  rw [push, weight_of_isdigit hdigit, Nat.mul_comm]

theorem scanPart_toDigits (n : ℕ) {after : List Char}
    (hafter : ∀ c ∈ after.head?, c = '.') :
    scanPart (Nat.toDigits 10 n ++ after) = (BitVec.ofNat 32 n, after) := by
  have hstop (base : ℕ) (val : U32) : scanDigits base val after = (val, after) := by
    cases after with
    | nil => rfl
    | cons c after =>
        obtain rfl := hafter c rfl
        rw [scanDigits, if_neg (by decide), if_neg (by simp [isxdigit, isdigit])]
  by_cases hzero : n = 0
  · subst hzero
    have hmark : scanBase ('0' :: after) = (8, after) := by
      apply scanBase_octal
      intro c hc
      obtain rfl := hafter c hc
      decide
    change scanPart ('0' :: after) = _
    rw [scanPart, hmark]
    exact hstop 8 0
  · have hhead : (Nat.toDigits 10 n ++ after).head? ≠ some '0' := by
      rw [List.head?_append_of_ne_nil _ Nat.toDigits_ne_nil]
      exact head_toDigits hzero
    rw [scanPart, scanBase_decimal hhead]
    change scanDigits 10 0 (Nat.toDigits 10 n ++ after) = _
    rw [scanDigits_append 10 (fun c hc => isdigit_of_mem_toDigits hc), foldl_pushWord_zero,
      value_toDigits, hstop]

section Bytes

variable (a b c d : U8)

theorem not_byte_gt : ¬BitVec.ofNat 32 a.toNat > 0xff := by
  rw [gt_iff_lt, BitVec.not_lt, BitVec.le_def, BitVec.toNat_ofNat]
  exact Nat.le_of_lt_succ (lt_of_le_of_lt (Nat.mod_le _ _) a.isLt)

theorem scanParts_byte_dot (room : ℕ) (parts : List U32) (after : List Char) :
    scanParts (room + 1) parts (Nat.toDigits 10 a.toNat ++ '.' :: after) =
      scanParts room (parts ++ [BitVec.ofNat 32 a.toNat]) after := by
  rw [scanParts_dot (scanPart_toDigits a.toNat (by simp)), if_neg]
  · rfl
  · simpa using not_byte_gt a

theorem intercalate_bytes :
    List.intercalate ['.'] ([a, b, c, d].map fun byte => Nat.toDigits 10 byte.toNat) =
      Nat.toDigits 10 a.toNat ++ '.' :: (Nat.toDigits 10 b.toNat ++ '.' ::
        (Nat.toDigits 10 c.toNat ++ '.' :: (Nat.toDigits 10 d.toNat ++ []))) := by
  simp [List.intercalate]

theorem scanParts_bytes : scanParts 3 [] (List.intercalate ['.']
      ([a, b, c, d].map fun byte => Nat.toDigits 10 byte.toNat)) =
    some ([BitVec.ofNat 32 a.toNat, BitVec.ofNat 32 b.toNat, BitVec.ofNat 32 c.toNat],
      BitVec.ofNat 32 d.toNat, []) := by
  rw [intercalate_bytes, scanParts_byte_dot, scanParts_byte_dot, scanParts_byte_dot,
    scanParts_end (scanPart_toDigits d.toNat (by simp)) (by simp)]
  rfl

theorem concoct_bytes : concoct [BitVec.ofNat 32 a.toNat, BitVec.ofNat 32 b.toNat,
      BitVec.ofNat 32 c.toNat] (BitVec.ofNat 32 d.toNat) =
    some (ByteOrder.load32 .big [a, b, c, d]) := by
  have hbyte (x : U8) : (BitVec.ofNat 32 x.toNat).toNat = x.toNat := by
    rw [BitVec.toNat_ofNat]
    omega
  obtain ⟨addr, haddr⟩ : ∃ addr, concoct [BitVec.ofNat 32 a.toNat, BitVec.ofNat 32 b.toNat,
      BitVec.ofNat 32 c.toNat] (BitVec.ofNat 32 d.toNat) = some addr := by
    rw [concoct, if_neg (not_byte_gt d)]
    exact ⟨_, rfl⟩
  have hle (x : U8) : (BitVec.ofNat 32 x.toNat).toNat ≤ 255 :=
    (hbyte x).le.trans (Nat.le_of_lt_succ x.isLt)
  have hbytes : ∀ x ∈ [BitVec.ofNat 32 a.toNat, BitVec.ofNat 32 b.toNat,
      BitVec.ofNat 32 c.toNat], x.toNat ≤ 255 := by
    simp only [List.forall_mem_cons]
    exact ⟨hle a, hle b, hle c, nofun⟩
  have hplaced := toNat_concoct haddr le_rfl hbytes
  simp only [List.map_cons, List.map_nil, hbyte, List.cons_append, List.nil_append, placed,
    Option.some.injEq] at hplaced
  rw [haddr, Option.some.injEq]
  apply BitVec.eq_of_toNat_eq
  rw [ByteOrder.toNat_load32_big, ← hplaced]

end Bytes

theorem exists_store32 (order : ByteOrder) (x : U32) :
    ∃ b₀ b₁ b₂ b₃, order.store32 x = [b₀, b₁, b₂, b₃] := by
  cases order with
  | big => exact ⟨_, _, _, _, rfl⟩
  | little => exact ⟨_, _, _, _, rfl⟩

theorem inetAton_inetNtoa (order : ByteOrder) (a old : U32) :
    inetAton order (inetNtoa order a) (some old) = (1, some a) := by
  obtain ⟨b₀, b₁, b₂, b₃, hbytes⟩ := exists_store32 order a
  have hswap : order.hton32 (ByteOrder.load32 .big [b₀, b₁, b₂, b₃]) = a := by
    rw [ByteOrder.hton32, ByteOrder.store32_load32, ← hbytes]
    simpa using ByteOrder.load32_store32 order a []
  rw [inetAton, inetNtoa, hbytes, scanParts_bytes]
  dsimp only
  rw [if_neg (by decide), concoct_bytes]
  exact congrArg (fun x => ((1 : ℤ), some x)) hswap

theorem length_inetNtoa_lt (order : ByteOrder) (a : U32) : (inetNtoa order a).length < 16 := by
  obtain ⟨b₀, b₁, b₂, b₃, hbytes⟩ := exists_store32 order a
  have hlen (b : U8) : (Nat.toDigits 10 b.toNat).length ≤ 3 :=
    (Nat.length_toDigits_le_iff (by decide) (by decide)).mpr (lt_trans b.isLt (by decide))
  have h₀ := hlen b₀
  have h₁ := hlen b₁
  have h₂ := hlen b₂
  have h₃ := hlen b₃
  rw [inetNtoa, hbytes, intercalate_bytes]
  simp only [List.length_append, List.length_cons, List.length_nil]
  omega

/-- An address that was printed is read back. For a text that is accepted, the stored address is
the one of the integers that its parts are in their bases exactly when these fit in a word, and it
is the one that the text denotes exactly when each part is moreover an integer constant. -/
theorem inet_text_sound_iff (order : ByteOrder) :
    (∀ a old, inetAton order (inetNtoa order a) (some old) = (1, some a)) ∧
      ∀ s old a, inetAton order s (some old) = (1, some a) →
        (placed ((dottedParts s).map partValue) = some (order.hton32 a).toNat ↔
          ∀ part ∈ dottedParts s, partValue part < 2 ^ 32) ∧
        (Denotes s (order.hton32 a).toNat ↔
          ∀ part ∈ dottedParts s, ∃ n, Numeral part n ∧ n < 2 ^ 32) :=
  ⟨inetAton_inetNtoa order, fun _ _ _ h => ⟨placed_partValue_iff h, denotes_iff h⟩⟩

/-- A text with parts in all three bases. -/
theorem inet_text_sound_mixed :
    inetAton .little "0x0A.0.017.1".toList (some 0) = (1, some 0x010f000a) ∧
      Denotes "0x0A.0.017.1".toList 0x0a000f01 := by
  have haccepted : inetAton .little "0x0A.0.017.1".toList (some 0) = (1, some 0x010f000a) := by
    decide
  refine ⟨haccepted, ((inet_text_sound_iff .little).2 _ _ _ haccepted).2.mpr ?_⟩
  have hparts : dottedParts "0x0A.0.017.1".toList =
      ["0x0A".toList, "0".toList, "017".toList, "1".toList] := by decide
  rw [hparts]
  simp only [List.forall_mem_cons]
  refine ⟨⟨_, .hexadecimal (.inl rfl) (by decide) (isDigit_of_all (by decide)), by decide⟩,
    ⟨_, .octal nofun, by decide⟩, ⟨_, .octal (isDigit_of_all (by decide)), by decide⟩,
    ⟨_, .decimal (by decide) (isDigit_of_all (by decide)), by decide⟩, nofun⟩

/-- A number of 33 bits is accepted without its highest bit, and an octal number with a digit
that octal numbers do not have. -/
theorem inet_text_reduced :
    (inetAton .little "4294967297".toList (some 0) = (1, some 0x01000000) ∧
      placed ((dottedParts "4294967297".toList).map partValue) = some 4294967297 ∧
      ¬Denotes "4294967297".toList (ByteOrder.hton32 .little 0x01000000).toNat) ∧
    inetAton .little "08".toList (some 0) = (1, some 0x08000000) ∧
      ¬Denotes "08".toList (ByteOrder.hton32 .little 0x08000000).toNat := by
  have hlarge : inetAton .little "4294967297".toList (some 0) = (1, some 0x01000000) := by decide
  have height : inetAton .little "08".toList (some 0) = (1, some 0x08000000) := by decide
  refine ⟨⟨hlarge, by decide, ?_⟩, height, ?_⟩
  · rw [denotes_iff hlarge]
    intro h
    obtain ⟨n, hn, hlt⟩ := h "4294967297".toList (by decide)
    rw [← partValue_of_numeral hn] at hlt
    exact absurd hlt (by decide)
  · rw [denotes_iff height]
    intro h
    obtain ⟨n, hn, -⟩ := h "08".toList (by decide)
    cases hn with
    | decimal hfirst _ => exact hfirst rfl
    | octal hdigits => exact absurd (hdigits '8' (by decide)) (by decide)
    | hexadecimal hmark _ _ => exact absurd hmark (by decide)

end Aodv
end WirelessMesh
