import WirelessMesh.Lib.SignedWords
import Mathlib.Algebra.BigOperators.Group.List.Basic
import Mathlib.Tactic.Linarith

/-!
# Caller identification

Between the first rings a telephone is told the date, the number and the name of the caller, as
bytes of a slow modem. The generator sends flag bytes, a type, a length, the message and a
checksum. The detector hunts for them and takes the message apart. Here the modem is perfect:
what was sent is received, and then nothing more.
-/

namespace WirelessMesh
namespace Slic

abbrev Octet := BitVec 8

def CString : Type := { s : List Octet // 0 ∉ s }

structure CallTime where
  mon : Fin 12
  mday : Fin 32
  hour : Fin 24
  min : Fin 60

/-! ## The generator -/

def twoDigits (n : ℕ) : List Octet := [BitVec.ofNat 8 (48 + n / 10), BitVec.ofNat 8 (48 + n % 10)]

def CallTime.digits (tm : CallTime) : List Octet :=
  twoDigits (tm.mon + 1) ++ twoDigits tm.mday ++ twoDigits tm.hour ++ twoDigits tm.min

/-- An element of the message: its type, its length and the start of the text. A length of zero
ends the string before it. -/
def element (type : Octet) (limit : ℕ) (text : List Octet) : List Octet :=
  let i := min text.length limit
  type :: if i = 0 then [] else BitVec.ofNat 8 i :: text.take i

def numberElement : Option CString → List Octet
  | none => [4, 1, 80]
  | some number =>
      if number.val.head? = some 79 then [4, 1, 79]
      else if number.val.head? = some 80 then [4, 1, 80]
      else element 2 10 number.val

def nameElement : Option CString → List Octet
  | none => [8, 1, 80]
  | some name =>
      if name.val = [79] then [8, 1, 79]
      else if name.val = [80] then [8, 1, 80]
      else element 7 16 name.val

/-- The message of `as_dsp_lib_ring_with_fsk_callerid`. -/
def callerMessage (tm : CallTime) (number name : Option CString) : List Octet :=
  1 :: 8 :: tm.digits ++ numberElement number ++ nameElement name

def charValue (signed : Bool) (c : Octet) : ℤ := if signed then c.toInt else c.toNat

def fskPutAChar (byte : ℤ) : Octet := BitVec.ofInt 8 byte

/-- The bytes that `as_dsp_lib_ring_with_fsk_callerid` sends. -/
def ringWithFskCallerid (signed : Bool) (tm : CallTime) (number name : Option CString) :
    List Octet :=
  let msg := callerMessage tm number name
  let j := (msg.map (charValue signed)).sum + 128 + msg.length
  List.replicate 30 (fskPutAChar 0x55) ++ fskPutAChar 128 :: fskPutAChar msg.length ::
    msg.map (fun c => fskPutAChar (charValue signed c)) ++ [fskPutAChar (256 - j % 256)]

/-! ## The detector -/

/-- `__as_fsk_decode_gettdd` for characters of eight bits: a zero byte is skipped. There is an
error when nothing more comes. -/
def fskDecodeGettdd : List Octet → Option (Octet × List Octet)
  | [] => none
  | b :: bytes => if b = 0 then fskDecodeGettdd bytes else some (b, bytes)

def collect : ℕ → List Octet → Option (List Octet × List Octet)
  | 0, bytes => some ([], bytes)
  | n + 1, bytes =>
      (fskDecodeGettdd bytes).bind fun r => (collect n r.2).map fun s => (r.1 :: s.1, s.2)

structure Clid where
  rv : ℤ
  number : List Octet
  name : List Octet
deriving DecidableEq

/-- The loop over the elements of a message. Each element is longer than nothing, so that as
many rounds as the message has bytes are enough. Behind the message stands its end mark. -/
def mdmfLoop : ℕ → List Octet → Clid → Clid
  | 0, _, clid => clid
  | _ + 1, [], clid => clid
  | rounds + 1, type :: rest, clid =>
      let len := (rest.headD 0).toNat
      let text := rest.tail.take len
      let clid :=
        if type = 2 ∨ type = 4 then { clid with number := text }
        else if type = 7 ∨ type = 8 then { clid with name := text }
        else clid
      mdmfLoop rounds (rest.tail.drop len) clid

/-- What is made of a message with a good checksum. A short message of the other format is read
behind its end. -/
def readMessage (m : Octet) (msg : List Octet) : Option Clid :=
  if m = 0x80 then some (mdmfLoop msg.length msg ⟨0, [], []⟩)
  else if 8 ≤ msg.length then some ⟨0, msg.drop 8, []⟩
  else none

/-- The message, from its length on; `none` is an error of the modem. -/
def receiveMessage (m : Octet) (bytes : List Octet) :
    Option (List Octet × Bool × List Octet) := do
  let (n, bytes) ← fskDecodeGettdd bytes
  let (msg, bytes) ← collect n.toNat bytes
  let (cs, bytes) ← fskDecodeGettdd bytes
  let j := m.toNat + n.toNat + (msg.map BitVec.toNat).sum
  return (msg, cs.toNat = 256 - j % 256, bytes)

/-- The loop of `as_fsk_clid`, with both buffers given. Each round takes a byte. -/
def fskClidLoop : ℕ → Bool → List Octet → Option Clid
  | 0, _, _ => none
  | rounds + 1, flag, bytes =>
      match fskDecodeGettdd bytes with
      | none => some ⟨-1, [], []⟩
      | some (m, bytes) =>
          if m = 0x55 then fskClidLoop rounds true bytes
          else if flag = false then fskClidLoop rounds flag bytes
          else if m ≠ 4 ∧ m ≠ 0x80 then fskClidLoop rounds flag bytes
          else
            match receiveMessage m bytes with
            | none => some ⟨-1, [], []⟩
            | some (msg, true, _) => readMessage m msg
            | some (_, false, bytes) => fskClidLoop rounds false bytes

def fskClid (bytes : List Octet) : Option Clid := fskClidLoop (bytes.length + 1) false bytes

/-! ## What is sent -/

theorem fskPutAChar_charValue (signed : Bool) (c : Octet) :
    fskPutAChar (charValue signed c) = c := by
  cases signed with
  | true => exact BitVec.ofInt_toInt
  | false => simp [fskPutAChar, charValue]

theorem sum_charValue_emod (signed : Bool) (msg : List Octet) :
    (msg.map (charValue signed)).sum % 256 = ((msg.map BitVec.toNat).sum : ℤ) % 256 := by
  induction msg with
  | nil => rfl
  | cons c msg ih =>
      have hc : charValue signed c % 256 = (c.toNat : ℤ) % 256 := by
        cases signed with
        | true =>
            rw [charValue, if_pos rfl, BitVec.toInt_eq_toNat_cond]
            split_ifs <;> omega
        | false => rfl
      rw [List.map_cons, List.sum_cons, List.map_cons, List.sum_cons, Nat.cast_add]
      rw [Int.add_emod, hc, ih, ← Int.add_emod]

def checkedSum (msg : List Octet) : ℕ := 128 + msg.length + (msg.map BitVec.toNat).sum

/-- The checksum byte, which is zero when the sum is a multiple of 256. -/
def checksum (msg : List Octet) : Octet := BitVec.ofNat 8 (256 - checkedSum msg % 256)

theorem fskPutAChar_checksum (signed : Bool) (msg : List Octet) :
    fskPutAChar (256 - ((msg.map (charValue signed)).sum + 128 + msg.length) % 256) =
      checksum msg := by
  have hsum := sum_charValue_emod signed msg
  have hmod : ((msg.map (charValue signed)).sum + 128 + msg.length) % 256 =
      ((checkedSum msg % 256 : ℕ) : ℤ) := by
    unfold checkedSum
    omega
  have hsub : (256 : ℤ) - ((checkedSum msg % 256 : ℕ) : ℤ) =
      ((256 - checkedSum msg % 256 : ℕ) : ℤ) := by omega
  rw [hmod, hsub, fskPutAChar, checksum, BitVec.ofInt_natCast]

theorem ringWithFskCallerid_eq (signed : Bool) (tm : CallTime) (number name : Option CString) :
    ringWithFskCallerid signed tm number name =
      List.replicate 30 0x55 ++ 0x80 ::
        BitVec.ofNat 8 (callerMessage tm number name).length ::
        (callerMessage tm number name ++ [checksum (callerMessage tm number name)]) := by
  unfold ringWithFskCallerid
  simp only [fskPutAChar_charValue, fskPutAChar_checksum, List.map_id']
  rw [List.append_assoc]
  simp [fskPutAChar]

/-! ## What is received -/

theorem fskDecodeGettdd_cons {b : Octet} (h : b ≠ 0) (bytes : List Octet) :
    fskDecodeGettdd (b :: bytes) = some (b, bytes) := if_neg h

theorem collect_append (msg bytes : List Octet) (h : 0 ∉ msg) :
    collect msg.length (msg ++ bytes) = some (msg, bytes) := by
  induction msg with
  | nil => rfl
  | cons c msg ih =>
      have hc : c ≠ 0 := fun hzero => h (hzero ▸ List.mem_cons_self)
      have hrest : 0 ∉ msg := fun hmem => h (List.mem_cons_of_mem c hmem)
      rw [List.length_cons, List.cons_append, collect, fskDecodeGettdd_cons hc]
      simp [ih hrest]

theorem fskClidLoop_flags (n rounds : ℕ) (flag : Bool) (bytes : List Octet) :
    fskClidLoop (rounds + (n + 1)) flag (List.replicate (n + 1) 0x55 ++ bytes) =
      fskClidLoop rounds true bytes := by
  induction n generalizing flag with
  | zero => simp [fskClidLoop, fskDecodeGettdd]
  | succ n ih =>
      rw [List.replicate_succ, List.cons_append, ← Nat.add_assoc, fskClidLoop,
        fskDecodeGettdd_cons (by decide)]
      exact ih true

theorem receiveMessage_checksum {msg : List Octet} (h : 0 ∉ msg) (hpos : 0 < msg.length)
    (hlt : msg.length < 256) :
    receiveMessage 0x80 (BitVec.ofNat 8 msg.length :: (msg ++ [checksum msg])) =
      if checkedSum msg % 256 = 0 then none else some (msg, true, []) := by
  have hlength : (BitVec.ofNat 8 msg.length).toNat = msg.length := by
    rw [BitVec.toNat_ofNat, Nat.mod_eq_of_lt hlt]
  have hne : BitVec.ofNat 8 msg.length ≠ 0 := by
    intro hzero
    rw [hzero] at hlength
    exact absurd hlength (by simpa using hpos.ne)
  have hsum : (0x80 : Octet).toNat + msg.length + (msg.map BitVec.toNat).sum = checkedSum msg :=
    rfl
  simp only [receiveMessage, fskDecodeGettdd_cons hne, hlength, collect_append _ _ h, hsum,
    Option.bind_eq_bind, Option.bind_some]
  split_ifs with hzero
  · have hcs : checksum msg = 0 := by
      rw [checksum, hzero]
      rfl
    simp [hcs, fskDecodeGettdd]
  · have hcs : (checksum msg).toNat = 256 - checkedSum msg % 256 := by
      rw [checksum, BitVec.toNat_ofNat]
      omega
    have hcsne : checksum msg ≠ 0 := by
      intro hcszero
      rw [hcszero] at hcs
      simp at hcs
      omega
    simp [fskDecodeGettdd_cons hcsne, hcs]

theorem mdmfLoop_element (rounds : ℕ) (type : Octet) (text rest : List Octet) (clid : Clid)
    (hlt : text.length < 256) :
    mdmfLoop (rounds + 1) (type :: BitVec.ofNat 8 text.length :: (text ++ rest)) clid =
      mdmfLoop rounds rest
        (if type = 2 ∨ type = 4 then { clid with number := text }
        else if type = 7 ∨ type = 8 then { clid with name := text } else clid) := by
  have hlength : (BitVec.ofNat 8 text.length).toNat = text.length := by
    rw [BitVec.toNat_ofNat, Nat.mod_eq_of_lt hlt]
  rw [mdmfLoop]
  simp [hlength]

/-! ## The round trip -/

theorem CallTime.length_digits (tm : CallTime) : tm.digits.length = 8 := rfl

theorem zero_not_mem_twoDigits {n : ℕ} (h : n < 100) : 0 ∉ twoDigits n := by
  have hdigit : ∀ d < 10, BitVec.ofNat 8 (48 + d) ≠ 0 := by decide
  intro hmem
  rcases List.mem_cons.mp hmem with hzero | hmem
  · exact hdigit (n / 10) (by omega) hzero.symm
  · exact hdigit (n % 10) (by omega) (List.mem_singleton.mp hmem).symm

theorem CallTime.zero_not_mem_digits (tm : CallTime) : 0 ∉ tm.digits := by
  unfold CallTime.digits
  simp only [List.mem_append, not_or]
  refine ⟨⟨⟨?_, ?_⟩, ?_⟩, ?_⟩
  all_goals
    apply zero_not_mem_twoDigits
    omega

structure Caller where
  number : CString
  name : CString
  number_ne : number.val ≠ []
  name_ne : name.val ≠ []
  not_absent : number.val.head? ≠ some 79 ∧ number.val.head? ≠ some 80
  not_hidden : name.val ≠ [79] ∧ name.val ≠ [80]

namespace Caller

variable (caller : Caller) (tm : CallTime)

def sentNumber : List Octet := caller.number.val.take 10

def sentName : List Octet := caller.name.val.take 16

def total : ℕ :=
  128 + (14 + caller.sentNumber.length + caller.sentName.length) +
    (9 + (tm.digits.map BitVec.toNat).sum) +
    (2 + caller.sentNumber.length + (caller.sentNumber.map BitVec.toNat).sum) +
    (7 + caller.sentName.length + (caller.sentName.map BitVec.toNat).sum)

end Caller

theorem element_eq (type : Octet) {limit : ℕ} {text : List Octet} (hlimit : 0 < limit)
    (htext : text ≠ []) :
    element type limit text =
      type :: BitVec.ofNat 8 (text.take limit).length :: text.take limit := by
  have hpos := List.length_pos_iff.mpr htext
  have hmin : min text.length limit ≠ 0 := by omega
  have htake : text.take (min text.length limit) = text.take limit := by
    rw [Nat.min_comm, ← List.take_eq_take_min]
  rw [element, if_neg hmin, htake, List.length_take, Nat.min_comm]

namespace Caller

variable (caller : Caller) (tm : CallTime)

theorem message_eq :
    callerMessage tm (some caller.number) (some caller.name) =
      1 :: BitVec.ofNat 8 tm.digits.length :: (tm.digits ++
        2 :: BitVec.ofNat 8 caller.sentNumber.length :: (caller.sentNumber ++
          7 :: BitVec.ofNat 8 caller.sentName.length :: (caller.sentName ++ []))) := by
  have hnumber : numberElement (some caller.number) =
      2 :: BitVec.ofNat 8 caller.sentNumber.length :: caller.sentNumber := by
    rw [numberElement, if_neg caller.not_absent.1, if_neg caller.not_absent.2,
      element_eq _ (by decide) caller.number_ne]
    rfl
  have hname : nameElement (some caller.name) =
      7 :: BitVec.ofNat 8 caller.sentName.length :: caller.sentName := by
    rw [nameElement, if_neg caller.not_hidden.1, if_neg caller.not_hidden.2,
      element_eq _ (by decide) caller.name_ne]
    rfl
  rw [callerMessage, hnumber, hname, List.append_nil, tm.length_digits]
  simp

theorem length_sentNumber : 0 < caller.sentNumber.length ∧ caller.sentNumber.length ≤ 10 := by
  have hpos := List.length_pos_iff.mpr caller.number_ne
  rw [sentNumber, List.length_take]
  omega

theorem length_sentName : 0 < caller.sentName.length ∧ caller.sentName.length ≤ 16 := by
  have hpos := List.length_pos_iff.mpr caller.name_ne
  rw [sentName, List.length_take]
  omega

theorem zero_not_mem_message :
    0 ∉ callerMessage tm (some caller.number) (some caller.name) := by
  have hnumber := caller.length_sentNumber
  have hname := caller.length_sentName
  have hdigits := tm.zero_not_mem_digits
  have hsentNumber : 0 ∉ caller.sentNumber :=
    fun hmem => caller.number.property (List.mem_of_mem_take hmem)
  have hsentName : 0 ∉ caller.sentName :=
    fun hmem => caller.name.property (List.mem_of_mem_take hmem)
  have hlen : BitVec.ofNat 8 caller.sentNumber.length ≠ 0 :=
    SignedWords.ofNat_ne_zero hnumber.1 (by omega)
  have hlen' : BitVec.ofNat 8 caller.sentName.length ≠ 0 := SignedWords.ofNat_ne_zero hname.1 (by omega)
  rw [message_eq, tm.length_digits]
  simp only [List.mem_cons, List.mem_append, List.append_nil, not_or]
  exact ⟨by decide, by decide, hdigits, by decide, hlen.symm, hsentNumber, by decide, hlen'.symm,
    hsentName⟩

theorem length_message :
    (callerMessage tm (some caller.number) (some caller.name)).length =
      14 + caller.sentNumber.length + caller.sentName.length := by
  rw [message_eq]
  simp only [List.length_cons, List.length_append, tm.length_digits, List.length_nil]
  omega

theorem checkedSum_message :
    checkedSum (callerMessage tm (some caller.number) (some caller.name)) = caller.total tm := by
  have hnumber := caller.length_sentNumber
  have hname := caller.length_sentName
  rw [checkedSum, length_message, message_eq, tm.length_digits, total]
  simp only [List.map_cons, List.map_append, List.sum_cons, List.sum_append, List.map_nil,
    List.sum_nil, BitVec.toNat_ofNat, BitVec.ofNat_eq_ofNat]
  rw [Nat.mod_eq_of_lt (by omega : caller.sentNumber.length < 2 ^ 8),
    Nat.mod_eq_of_lt (by omega : caller.sentName.length < 2 ^ 8)]
  omega

theorem readMessage_message :
    readMessage 0x80 (callerMessage tm (some caller.number) (some caller.name)) =
      some ⟨0, caller.sentNumber, caller.sentName⟩ := by
  have hnumber := caller.length_sentNumber
  have hname := caller.length_sentName
  obtain ⟨rounds, hrounds⟩ :
      ∃ rounds, (callerMessage tm (some caller.number) (some caller.name)).length = rounds + 3 :=
    ⟨_, (Nat.sub_add_cancel (by rw [length_message]; omega)).symm⟩
  rw [readMessage, if_pos rfl, hrounds, message_eq,
    mdmfLoop_element _ _ _ _ _ (by rw [tm.length_digits]; omega),
    mdmfLoop_element _ _ _ _ _ (by omega), mdmfLoop_element _ _ _ _ _ (by omega)]
  cases rounds <;> rfl

end Caller

theorem fskClid_ringWithFskCallerid (signed : Bool) (tm : CallTime) (number name : Option CString) :
    fskClid (ringWithFskCallerid signed tm number name) =
      let msg := callerMessage tm number name
      fskClidLoop (msg.length + 4) true
        (0x80 :: BitVec.ofNat 8 msg.length :: (msg ++ [checksum msg])) := by
  have hrounds : (ringWithFskCallerid signed tm number name).length + 1 =
      (callerMessage tm number name).length + 4 + (29 + 1) := by
    rw [ringWithFskCallerid_eq]
    simp only [List.length_append, List.length_replicate, List.length_cons, List.length_nil]
    omega
  rw [fskClid, hrounds, ringWithFskCallerid_eq]
  exact fskClidLoop_flags 29 _ false _

/-- A caller is identified exactly if the bytes of the message do not add up to a multiple
of 256. -/
theorem callerid_round_trip_iff (signed : Bool) (tm : CallTime) (caller : Caller) :
    fskClid (ringWithFskCallerid signed tm (some caller.number) (some caller.name)) =
        some ⟨0, caller.number.val.take 10, caller.name.val.take 16⟩ ↔
      caller.total tm % 256 ≠ 0 := by
  have hnumber := caller.length_sentNumber
  have hname := caller.length_sentName
  have hlength := caller.length_message tm
  have hmessage := receiveMessage_checksum (caller.zero_not_mem_message tm) (by omega) (by omega)
  rw [caller.checkedSum_message tm] at hmessage
  rw [fskClid_ringWithFskCallerid]
  simp only [fskClidLoop, fskDecodeGettdd_cons (by decide : (0x80 : Octet) ≠ 0), hmessage]
  by_cases hzero : caller.total tm % 256 = 0
  · refine iff_of_false ?_ fun h => h hzero
    simp [hzero]
  · refine iff_of_true ?_ hzero
    have hread := caller.readMessage_message tm
    simp only [if_neg hzero]
    exact hread

def unluckyCaller : Caller where
  number := ⟨[49], by decide⟩
  name := ⟨[65, 102], by decide⟩
  number_ne := by decide
  name_ne := by decide
  not_absent := by decide
  not_hidden := by decide

theorem unlucky_caller_lost :
    fskClid (ringWithFskCallerid true ⟨0, 1, 0, 0⟩ (some unluckyCaller.number)
      (some unluckyCaller.name)) = some ⟨-1, [], []⟩ := by
  decide +kernel

end Slic
end WirelessMesh
