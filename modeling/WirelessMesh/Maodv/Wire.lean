import WirelessMesh.Lib.ByteOrder
import WirelessMesh.Maodv.Task

/-!
# The PDUs of maodv as byte strings

What a node hands to its sockets, byte for byte, and the check that its peers make
before they look at it. The length of a RERR is computed from an `int`, its count of
destinations is sent in eight bits.
-/

namespace WirelessMesh
namespace Maodv

open Routes ByteOrder

/-! ## Layout -/

def sizeofRequest : ℕ := 24
def sizeofReply : ℕ := 20
def sizeofReplyAck : ℕ := 1
def sizeofError : ℕ := 4
def sizeofDest : ℕ := 8

def requestBytes (request : AodvPduRequest) : List U8 :=
  [request.type,
   BitVec.ofBool request.j ++ BitVec.ofBool request.r ++ BitVec.ofBool request.g ++
     BitVec.ofBool request.d ++ BitVec.ofBool request.u ++ request.reserved,
   request.secondReserved, request.metric] ++
  store32 .big request.rreqId ++ store32 .big request.dstIp ++ store32 .big request.dstSeq ++
  store32 .big request.srcIp ++ store32 .big request.srcSeq

def replyBytes (reply : AodvPduReply) : List U8 :=
  [reply.type, BitVec.ofBool reply.a ++ reply.reserved1, reply.reserved2, reply.metric] ++
  store32 .big reply.dstIp ++ store32 .big reply.dstSeq ++ store32 .big reply.srcIp ++
  store32 .big reply.lifetime

def destBytes (dest : AodvDest) : List U8 := store32 .big dest.ip ++ store32 .big dest.seq

/-- The compiler lays out `n` and `reserved` in the byte order of the machine. -/
def errorBytes (order : ByteOrder) (errpdu : AodvPduError) : List U8 :=
  let bits : BitVec 16 := BitVec.ofBool errpdu.n ++ errpdu.reserved
  let bytes := match order with
    | .big => [bits.extractLsb' 8 8, bits.extractLsb' 0 8]
    | .little => [bits.extractLsb' 0 8, bits.extractLsb' 8 8]
  errpdu.type :: bytes ++ errpdu.dstCount :: errpdu.dests.flatMap destBytes

def pduBytes (order : ByteOrder) : Pdu → List U8
  | .none => []
  | .request request => requestBytes request
  | .reply reply => replyBytes reply
  | .error errpdu => errorBytes order errpdu
  | .replyAck => [rrepAckMessage]

/-- `_valid_protocol_pdu`; `dst_count` is the fourth byte of a RERR. -/
def validProtocolBytes (numbytes : ℕ) (type : U8) (data : List U8) : Bool :=
  if type = rreqMessage then numbytes == sizeofRequest
  else if type = rrepMessage then numbytes == sizeofReply
  else if type = rerrMessage then
    numbytes == sizeofError + sizeofDest * (data.getD 3 0).toNat
  else if type = rrepAckMessage then numbytes == sizeofReplyAck
  else false

/-- The check of `_ip_packet_input`: the type is the first byte. -/
def acceptedBytes (data : List U8) : Bool :=
  validProtocolBytes data.length (data.getD 0 0) data

def readDests : ℕ → List U8 → List AodvDest
  | 0, _ => []
  | count + 1, data =>
      ⟨load32 .big data, load32 .big (data.drop 4)⟩ :: readDests count (data.drop sizeofDest)

def readError (data : List U8) : List AodvDest :=
  readDests (data.getD 3 0).toNat (data.drop sizeofError)

/-! ## Reading back -/

theorem length_flatMap_destBytes (dests : List AodvDest) :
    (dests.flatMap destBytes).length = sizeofDest * dests.length := by
  induction dests with
  | nil => rfl
  | cons dest dests ih =>
      simp only [List.flatMap_cons, List.length_append, ih, List.length_cons, destBytes,
        length_store32, sizeofDest]
      omega

theorem readDests_flatMap (dests : List AodvDest) :
    readDests dests.length (dests.flatMap destBytes) = dests := by
  induction dests with
  | nil => rfl
  | cons dest dests ih =>
      have hdrop₄ : (destBytes dest ++ dests.flatMap destBytes).drop 4 =
          store32 .big dest.seq ++ dests.flatMap destBytes := by
        rw [destBytes, List.append_assoc, List.drop_left' (length_store32 _ _)]
      have hdrop₈ : (destBytes dest ++ dests.flatMap destBytes).drop sizeofDest =
          dests.flatMap destBytes := by
        apply List.drop_left'
        simp [destBytes, sizeofDest]
      rw [List.length_cons, readDests, List.flatMap_cons, hdrop₄, hdrop₈, ih]
      rw [destBytes, List.append_assoc, load32_store32, load32_store32]

variable {order : ByteOrder}

theorem accepted_request {request : AodvPduRequest} (h : request.type = rreqMessage) :
    acceptedBytes (pduBytes order (.request request)) = true := by
  simp [acceptedBytes, pduBytes, requestBytes, validProtocolBytes, h, sizeofRequest]

theorem accepted_reply {reply : AodvPduReply} (h : reply.type = rrepMessage) :
    acceptedBytes (pduBytes order (.reply reply)) = true := by
  simp [acceptedBytes, pduBytes, replyBytes, validProtocolBytes, h, sizeofReply, rreqMessage,
    rrepMessage]

theorem accepted_replyAck : acceptedBytes (pduBytes order .replyAck) = true := by
  simp [acceptedBytes, pduBytes, validProtocolBytes, sizeofReplyAck, rreqMessage,
    rrepMessage, rerrMessage, rrepAckMessage]

theorem errorBytes_eq (order : ByteOrder) (errpdu : AodvPduError) : ∃ a b,
    errorBytes order errpdu =
      errpdu.type :: a :: b :: errpdu.dstCount :: errpdu.dests.flatMap destBytes := by
  cases order <;> exact ⟨_, _, rfl⟩

theorem accepted_error {errpdu : AodvPduError} (h : errpdu.type = rerrMessage) :
    acceptedBytes (pduBytes order (.error errpdu)) = true ↔
      errpdu.dests.length = errpdu.dstCount.toNat := by
  obtain ⟨a, b, hbytes⟩ := errorBytes_eq order errpdu
  have hrreq : ¬rerrMessage = rreqMessage := by decide
  have hrrep : ¬rerrMessage = rrepMessage := by decide
  simp only [acceptedBytes, pduBytes, hbytes, List.length_cons, length_flatMap_destBytes,
    validProtocolBytes, List.getD_cons_zero, List.getD_cons_succ, h, hrreq, hrrep, if_false,
    if_true, beq_iff_eq, sizeofError, sizeofDest]
  omega

theorem readError_errorBytes {errpdu : AodvPduError}
    (h : errpdu.dests.length = errpdu.dstCount.toNat) :
    readError (pduBytes order (.error errpdu)) = errpdu.dests := by
  obtain ⟨a, b, hbytes⟩ := errorBytes_eq order errpdu
  simp only [readError, pduBytes, hbytes, List.getD_cons_zero, List.getD_cons_succ, ← h,
    sizeofError, List.drop_succ_cons, List.drop_zero]
  exact readDests_flatMap errpdu.dests

theorem acceptedBytes_eq_validProtocolPdu {errpdu : AodvPduError} (h : errpdu.type = rerrMessage) :
    acceptedBytes (pduBytes order (.error errpdu)) = validProtocolPdu (.error errpdu) := by
  rw [Bool.eq_iff_iff, accepted_error h, validProtocolPdu, beq_iff_eq]

/-! ## The functions that send -/

def sendReplyAck (conf : EngineConf) (env : Env) (reply : AodvPduReply) : List Frame :=
  if env.mem .pdu then conf.unicast reply.srcIp 1 .replyAck else []

inductive Sender where
  | request (destIp : U32)
  | resend (packet : RouteTask)
  | reply (srcIp dstIp : U32)
  | hello
  | replyAck (pdu : AodvPduReply)
  | error (brkDstIp : U32)

def Sender.sent (conf : EngineConf) (env : Env) (e : RouteEngine) : Sender → List Frame
  | .request destIp => (sendRequest conf env destIp e).sent
  | .resend packet => (resendRequest conf env packet e).sent
  | .reply srcIp dstIp => (sendReply conf env srcIp dstIp e).sent
  | .hello => ((sendHello conf env e).map Done.sent).getD []
  | .replyAck pdu => sendReplyAck conf env pdu
  | .error brkDstIp => (sendError conf env brkDstIp e.routes).2

def brokenRoutes (brkDstIp : U32) (routes : RouteTable) : List AodvDest :=
  (routes.cells.filter fun c => c.2.nextHop == brkDstIp && !c.2.selfRoute).map fun c =>
    ⟨c.2.ip, c.2.seq⟩

/-- What a peer makes of a datagram: it is accepted, and a RERR lists the routes that
went through the lost address. -/
def WellFormed (order : ByteOrder) (e : RouteEngine) (sender : Sender) (f : Frame) : Prop :=
  acceptedBytes (pduBytes order f.pdu) = true ∧
    ∀ brkDstIp, sender = .error brkDstIp →
      (readError (pduBytes order f.pdu)).Perm (brokenRoutes brkDstIp e.routes)

variable {conf : EngineConf} {env : Env} {e : RouteEngine}

theorem issueRequest_type {srcIp destIp : U32} {d : Bool} {retries : U8} {f : Frame}
    (h : f ∈ (issueRequest conf env srcIp destIp d retries e).sent) :
    ∃ request : AodvPduRequest, f.pdu = .request request ∧ request.type = rreqMessage := by
  unfold issueRequest at h
  dsimp only at h
  split at h
  · simp at h
  · split_ifs at h
    · simp at h
    · dsimp only at h
      exact ⟨_, (EngineConf.mem_broadcast h).1, rfl⟩

theorem sendReply_type {srcIp dstIp : U32} {f : Frame}
    (h : f ∈ (sendReply conf env srcIp dstIp e).sent) :
    ∃ reply : AodvPduReply, f.pdu = .reply reply ∧ reply.type = rrepMessage := by
  unfold sendReply at h
  split at h
  · simp at h
  · split at h
    · simp at h
    · dsimp only at h
      split_ifs at h
      · exact ⟨_, (EngineConf.mem_unicast h).1, rfl⟩
      · simp at h

theorem sendHello_type {done : Done} (h : sendHello conf env e = some done) {f : Frame}
    (hf : f ∈ done.sent) :
    ∃ reply : AodvPduReply, f.pdu = .reply reply ∧ reply.type = rrepMessage := by
  unfold sendHello at h
  split_ifs at h
  · obtain rfl := Option.some.inj h
    simp at hf
  · obtain ⟨my, _, h⟩ := Option.bind_eq_some_iff.mp h
    obtain rfl := Option.some.inj h
    dsimp only at hf
    exact ⟨_, (EngineConf.mem_broadcast hf).1, rfl⟩

theorem errorCells_dests {brkDstIp : U32} (cs : List (ℕ × MeshRoute)) (dests : List AodvDest)
    (i : ℕ) {dests' : List AodvDest} (h : (errorCells env brkDstIp cs dests i).2 = some dests') :
    dests' = ((cs.filter fun c => c.2.nextHop == brkDstIp && !c.2.selfRoute).map fun c =>
      (⟨c.2.ip, c.2.seq⟩ : AodvDest)).reverse ++ dests := by
  induction cs generalizing dests i with
  | nil =>
      obtain rfl := Option.some.inj h
      rfl
  | cons c cs ih =>
      rw [List.filter_cons]
      by_cases hbroken : (c.2.nextHop == brkDstIp && !c.2.selfRoute) = true
      · rw [errorCells, if_pos hbroken] at h
        by_cases hmem : env.mem (.errRoute i) = true
        · rw [if_pos hmem] at h
          rw [ih _ _ h, if_pos hbroken]
          simp
        · rw [if_neg hmem] at h
          cases h
      · rw [errorCells, if_neg hbroken] at h
        rw [ih _ _ h, if_neg hbroken]

/-- The walk over the table stops at the first broken route for which there is no memory. -/
theorem errorCells_eq_none_iff {brkDstIp : U32} (cs : List (ℕ × MeshRoute))
    (dests : List AodvDest) (i : ℕ) :
    (errorCells env brkDstIp cs dests i).2 = none ↔
      ∃ k < (cs.filter fun c => c.2.nextHop == brkDstIp && !c.2.selfRoute).length,
        env.mem (.errRoute (i + k)) = false := by
  induction cs generalizing dests i with
  | nil => simp [errorCells]
  | cons c cs ih =>
      rw [List.filter_cons, errorCells]
      by_cases hbroken : (c.2.nextHop == brkDstIp && !c.2.selfRoute) = true
      · rw [if_pos hbroken, if_pos hbroken, List.length_cons, Nat.exists_lt_succ_left]
        by_cases hmem : env.mem (.errRoute i) = true
        · simp only [hmem, if_true, ih, Nat.add_zero, Bool.true_eq_false, false_or, Nat.add_assoc,
            Nat.add_comm 1]
        · simp [hmem]
      · rw [if_neg hbroken, if_neg hbroken]
        exact ih dests i

theorem sendError_eq_nil_iff (brkDstIp : U32) (routes : RouteTable) :
    (sendError conf env brkDstIp routes).2 = [] ↔
      conf.devs = [] ∨ env.mem .errPdu = false ∨
        (∃ i < (brokenRoutes brkDstIp routes).length, env.mem (.errRoute i) = false) ∨
        brokenRoutes brkDstIp routes = [] := by
  have hlen : (brokenRoutes brkDstIp routes).length = (routes.cells.filter fun c =>
      c.2.nextHop == brkDstIp && !c.2.selfRoute).length := List.length_map ..
  have hnone : (errorCells env brkDstIp routes.cells [] 0).2 = none ↔
      ∃ i < (brokenRoutes brkDstIp routes).length, env.mem (.errRoute i) = false := by
    simp only [errorCells_eq_none_iff, Nat.zero_add, hlen]
  rw [← hnone]
  cases hres : (errorCells env brkDstIp routes.cells [] 0).2 with
  | none => simp [sendError, hres]
  | some dests =>
      have hdests : dests = (brokenRoutes brkDstIp routes).reverse := by
        rw [errorCells_dests _ _ _ hres, List.append_nil, brokenRoutes]
      cases dests with
      | nil => simp [sendError, hres, List.reverse_eq_nil_iff.mp hdests.symm]
      | cons dest dests =>
          have hne : brokenRoutes brkDstIp routes ≠ [] := by
            rintro hnil
            rw [hnil] at hdests
            cases hdests
          cases hmem : env.mem .errPdu <;>
            simp [sendError, hres, hmem, hne, EngineConf.broadcast, netDiameter]

/-- A RERR that is sent lists all broken routes, and counts them modulo 256. -/
theorem sendError_pdu {brkDstIp : U32} {f : Frame}
    (h : f ∈ (sendError conf env brkDstIp e.routes).2) :
    ∃ errpdu, f.pdu = .error errpdu ∧ errpdu.type = rerrMessage ∧
      errpdu.dests = (brokenRoutes brkDstIp e.routes).reverse ∧
      errpdu.dstCount = BitVec.ofNat 8 errpdu.dests.length := by
  have hdests : ∀ dests, (errorCells env brkDstIp e.routes.cells [] 0).2 = some dests →
      dests = (brokenRoutes brkDstIp e.routes).reverse := by
    intro dests hsome
    rw [errorCells_dests _ _ _ hsome, List.append_nil, brokenRoutes]
  simp only [sendError] at h
  split at h
  · simp at h
  · simp at h
  · rename_i dests _ hsome
    split_ifs at h
    · simp at h
    · dsimp only at h
      exact ⟨_, (EngineConf.mem_broadcast h).1, rfl, hdests _ hsome, rfl⟩

theorem wellFormed_error_iff {brkDstIp : U32} {f : Frame}
    (h : f ∈ (sendError conf env brkDstIp e.routes).2) :
    WellFormed order e (.error brkDstIp) f ↔ (brokenRoutes brkDstIp e.routes).length ≤ 255 := by
  obtain ⟨errpdu, hpdu, htype, hdests, hcount⟩ := sendError_pdu h
  have hlen : errpdu.dests.length = (brokenRoutes brkDstIp e.routes).length := by
    rw [hdests, List.length_reverse]
  have haccept : acceptedBytes (pduBytes order f.pdu) = true ↔
      (brokenRoutes brkDstIp e.routes).length ≤ 255 := by
    rw [hpdu, accepted_error htype, hcount, hlen, BitVec.toNat_ofNat]
    omega
  constructor
  · intro hwell
    exact haccept.mp hwell.1
  · intro hfew
    refine ⟨haccept.mpr hfew, ?_⟩
    intro brk hbrk
    injection hbrk with hbrk
    subst hbrk
    have hright : errpdu.dests.length = errpdu.dstCount.toNat := by
      rw [hcount, hlen, BitVec.toNat_ofNat]
      omega
    rw [hpdu, readError_errorBytes hright, hdests]
    exact List.reverse_perm _

theorem wellFormed_of_not_error {sender : Sender} (hne : ∀ brkDstIp, sender ≠ .error brkDstIp)
    {f : Frame} (h : f ∈ sender.sent conf env e) : WellFormed order e sender f := by
  have hreq : ∀ request : AodvPduRequest, f.pdu = .request request → request.type = rreqMessage →
      acceptedBytes (pduBytes order f.pdu) = true := by
    intro request hpdu htype
    rw [hpdu]
    exact accepted_request htype
  have hrep : ∀ reply : AodvPduReply, f.pdu = .reply reply → reply.type = rrepMessage →
      acceptedBytes (pduBytes order f.pdu) = true := by
    intro reply hpdu htype
    rw [hpdu]
    exact accepted_reply htype
  refine ⟨?_, fun brk hbrk => absurd hbrk (hne brk)⟩
  cases sender with
  | request destIp =>
      simp only [Sender.sent, sendRequest] at h
      split_ifs at h
      · simp at h
      · simp at h
      · obtain ⟨request, hpdu, htype⟩ := issueRequest_type h
        exact hreq request hpdu htype
  | resend packet =>
      simp only [Sender.sent, resendRequest] at h
      split_ifs at h
      · simp at h
      · simp at h
      · obtain ⟨request, hpdu, htype⟩ := issueRequest_type h
        exact hreq request hpdu htype
  | reply srcIp dstIp =>
      obtain ⟨reply, hpdu, htype⟩ := sendReply_type h
      exact hrep reply hpdu htype
  | hello =>
      simp only [Sender.sent] at h
      cases hhello : sendHello conf env e with
      | none => simp [hhello] at h
      | some done =>
          rw [hhello] at h
          obtain ⟨reply, hpdu, htype⟩ := sendHello_type hhello h
          exact hrep reply hpdu htype
  | replyAck pdu =>
      simp only [Sender.sent, sendReplyAck] at h
      split_ifs at h
      · rw [(EngineConf.mem_unicast h).1]
        exact accepted_replyAck
      · simp at h
  | error brkDstIp => exact absurd rfl (hne brkDstIp)

/-- Whatever the state of the engine: all that a function sends is well formed, unless it is a RERR
for more than 255 routes, for which there is a device and memory for each record and the PDU. -/
theorem sent_wellFormed_iff (order : ByteOrder) (conf : EngineConf) (env : Env) (e : RouteEngine)
    (sender : Sender) :
    (∀ f ∈ sender.sent conf env e, WellFormed order e sender f) ↔
      ∀ brkDstIp, sender = .error brkDstIp →
        conf.devs = [] ∨ env.mem .errPdu = false ∨
          (∃ i < (brokenRoutes brkDstIp e.routes).length, env.mem (.errRoute i) = false) ∨
          (brokenRoutes brkDstIp e.routes).length ≤ 255 := by
  constructor
  · intro hall brk hsender
    subst hsender
    cases hsent : Sender.sent conf env e (.error brk) with
    | nil =>
        have hnil := (sendError_eq_nil_iff brk e.routes).mp hsent
        exact hnil.imp_right (Or.imp_right (Or.imp_right fun h => by simp [h]))
    | cons f rest =>
        have hf : f ∈ Sender.sent conf env e (.error brk) := by rw [hsent]; exact List.mem_cons_self
        exact .inr (.inr (.inr ((wellFormed_error_iff hf).mp (hall f hf))))
  · intro hfew f hf
    by_cases herr : ∃ brk, sender = .error brk
    · obtain ⟨brk, rfl⟩ := herr
      by_cases hle : (brokenRoutes brk e.routes).length ≤ 255
      · exact (wellFormed_error_iff hf).mpr hle
      · have hnil : Sender.sent conf env e (.error brk) = [] :=
          (sendError_eq_nil_iff brk e.routes).mpr
            ((hfew brk rfl).imp_right (Or.imp_right (Or.imp_right fun h => absurd h hle)))
        rw [hnil] at hf
        cases hf
    · exact wellFormed_of_not_error (fun brk hbrk => herr ⟨brk, hbrk⟩) hf

def crowded : RouteEngine :=
  let (conf, e) := lanNode true 0x0a000001
  { e with
    routes := (List.range 256).foldl (fun routes i => routes.push
      { routeNew conf (.plenty 0) (0x0b000000 + BitVec.ofNat 32 i) with
        nextHop := 0x0a000002, routeValid := true, dev := some (lanDev 0x0a000001) }) e.routes }

/-- The RERR of the crowded node says that it lists no route, and is refused. -/
theorem crowded_rerr_refused :
    ∃ f ∈ Sender.sent (lanNode true 0x0a000001).1 (.plenty 0) crowded (.error 0x0a000002),
      acceptedBytes (pduBytes .little f.pdu) = false ∧ readError (pduBytes .little f.pdu) = [] := by
  have hrun : (Sender.sent (lanNode true 0x0a000001).1 (.plenty 0) crowded
      (.error 0x0a000002)).any (fun f => !acceptedBytes (pduBytes .little f.pdu) &&
        decide (readError (pduBytes .little f.pdu) = [])) = true := by
    decide +kernel
  obtain ⟨f, hf, hbad⟩ := List.any_eq_true.mp hrun
  simp only [Bool.and_eq_true, Bool.not_eq_true', decide_eq_true_eq] at hbad
  exact ⟨f, hf, hbad⟩

end Maodv
end WirelessMesh
