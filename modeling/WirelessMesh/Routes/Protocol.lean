import WirelessMesh.Kernel

/-!
# What the two routing modules share

`aodv` and `maodv` are two editions of one AODV daemon. They have the protocol
constants, the PDU layouts, the wrapping comparisons of sequence numbers and the
task codes in common. PDUs are kept in host byte order.
-/

namespace WirelessMesh

namespace Routes

open SerialOrder

/-! ## Constants, with the macros expanded in place -/

def activeRouteTimeout : U32 := 3000
def myRouteTimeout : U32 := activeRouteTimeout
def helloInterval : U32 := 1000 * 10
def allowedHelloLoss : U32 := 2
def deletePeriod : U32 := allowedHelloLoss * helloInterval
def netDiameter : U8 := 10
def netTraversalTime : U32 := 2 * 40 * 10
def pathDiscoveryTime : U32 := 2 * netTraversalTime
def rreqRetries : U16 := 2

def rreqMessage : U8 := 1
def rrepMessage : U8 := 2
def rerrMessage : U8 := 3
def rrepAckMessage : U8 := 4

def taskRreq : U32 := 1
def taskRrep : U32 := 2
def taskRerr : U32 := 3
def taskRrepAck : U32 := 4
def taskResendRreq : U32 := 101
def taskHello : U32 := 102
def taskNeighbor : U32 := 103
def taskCleanup : U32 := 104
def taskRouteCleanup : U32 := 105

/-! ## Comparisons -/

def seqLessOrEqual (seqOne seqTwo : U32) : Bool := !decide (0 < ahead seqOne seqTwo)

/-- As coded, "greater" also holds of equal numbers. -/
def seqGreater (seqOne seqTwo : U32) : Bool := !decide (ahead seqOne seqTwo < 0)

/-! ## Protocol data units -/

structure AodvPduRequest where
  type : U8
  j : Bool
  r : Bool
  g : Bool
  d : Bool
  u : Bool
  reserved : BitVec 3
  secondReserved : U8
  metric : U8
  rreqId : U32
  dstIp : U32
  dstSeq : U32
  srcIp : U32
  srcSeq : U32
  deriving DecidableEq, Repr

structure AodvPduReply where
  type : U8
  a : Bool
  reserved1 : BitVec 7
  reserved2 : U8
  metric : U8
  dstIp : U32
  dstSeq : U32
  srcIp : U32
  lifetime : U32
  deriving DecidableEq, Repr

structure AodvDest where
  ip : U32
  seq : U32
  deriving DecidableEq, Repr

structure AodvPduError where
  type : U8
  n : Bool
  reserved : BitVec 15
  dstCount : U8
  dests : List AodvDest
  deriving DecidableEq, Repr

inductive Pdu where
  | none
  | request (request : AodvPduRequest)
  | reply (reply : AodvPduReply)
  | error (error : AodvPduError)
  | replyAck
  deriving DecidableEq, Repr

/-! ## Laws of the comparisons -/

theorem seqGreater_eq_false {a b : U32} : seqGreater a b = false ↔ ahead a b < 0 := by
  simp [seqGreater]

theorem seqLessOrEqual_eq_true {a b : U32} : seqLessOrEqual a b = true ↔ ahead a b ≤ 0 := by
  simp [seqLessOrEqual]

theorem timeBefore_eq_false {a b : U32} : timeBefore a b = false ↔ 0 ≤ ahead a b := by
  simp [timeBefore]

theorem seqLessOrEqual_self (s : U32) : seqLessOrEqual s s = true := by
  simp [seqLessOrEqual]

theorem seqLessOrEqual_succ (s : U32) : seqLessOrEqual s (s + 1) = true := by
  have h : s - (s + 1) = -1 := by bv_omega
  rw [seqLessOrEqual_eq_true, ahead, h]
  decide

theorem seqLessOrEqual_of_newer {s q : U32} (h : seqGreater s q = false) :
    seqLessOrEqual s q = true := by
  rw [seqGreater_eq_false] at h
  rw [seqLessOrEqual_eq_true]
  omega

/-- A number newer than `s + 1` is newer than `s`, but for the one that is half
the circle ahead. -/
theorem seqLessOrEqual_of_newer_succ {s q : U32} (h : seqGreater (s + 1) q = false) :
    seqLessOrEqual s q = true ↔ q ≠ s + 1 + 0x80000000 := by
  rw [seqGreater_eq_false, ahead] at h
  rw [seqLessOrEqual_eq_true, ahead]
  have h₁ : s + 1 - q = s - q + 1 := by bv_omega
  have h₂ : q = s + 1 + 0x80000000 ↔ (s - q).toNat = 0x7fffffff := by
    constructor <;> intro h <;> bv_omega
  rw [ne_eq, h₂]
  rw [h₁] at h
  generalize s - q = x at h
  have hx : x.toNat < 2 ^ 32 := x.isLt
  have hs : (x + 1).toNat = (x.toNat + 1) % 2 ^ 32 := by simp [BitVec.toNat_add]
  rw [BitVec.toInt_eq_toNat_cond] at h ⊢
  rw [hs] at h
  split_ifs at h ⊢ <;> omega

theorem seqGreater_eq_false_iff {a b : U32} (ha : 2 * a.toNat < 2 ^ 32)
    (hb : 2 * b.toNat < 2 ^ 32) : seqGreater a b = false ↔ a.toNat < b.toNat := by
  rw [seqGreater_eq_false, ahead_of_lt ha hb]
  omega

theorem timeBefore_add (now : U32) {k : ℕ} (hk : 2 * k < 2 ^ 32) :
    timeBefore (now + BitVec.ofNat 32 k) now = false := by
  rw [timeBefore_eq_false, ahead_add now hk]
  omega

end Routes
end WirelessMesh
