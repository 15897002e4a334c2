import WirelessMesh.Dsr.RequestIds

/-!
# A node that runs the dynamic source routing module

The hooks, the options' handlers and the timers of `dsr-kmodule.c`, `dsr_input.c`,
`dsr_output.c` and `dsr_queue.c`, on packets whose options have been read. The kernel's table has
the subnet, whose nodes are neighbours, and at most one route to all else; memory does not run
out.
-/

namespace WirelessMesh.Dsr

structure Host where
  ipaddr : Addr
  netmask : Addr
  bcast : Addr
  /-- The gateway of the kernel's route to addresses outside the subnet, if it has one. -/
  gateway : Option Addr
  gw : Bool
  /-- The MTU of the kernel's routes. -/
  pmtu : ℕ

namespace Host

def subnet (h : Host) (x : Addr) : Bool :=
  x &&& h.netmask == h.ipaddr &&& h.netmask

/-- The neighbour that the kernel sends to for an address, which may be the node itself; without
one the lookup fails. -/
def nextHop (h : Host) (x : Addr) : Option Addr :=
  if h.subnet x then some x else h.gateway

end Host

inductive Opt
  | pad
  | rtReq (ident : Ident) (taddr : Addr) (addr : List Addr)
  | rtReply (ident : Ident) (addr : List Addr)
  | rtErr (errsaddr errdaddr typeinfo : Addr)
  | ackReq (ident : Ident) (saddr : Addr)
  | ack (ident : Ident) (saddr daddr : Addr)
  | srcRt (segsLeft : ℕ) (addr : List Addr)
  | unknown
  deriving DecidableEq, Repr

/-- What an IP packet carries: all of it, or a fragment, which lies at `offset` and is not the last
one if `mf` is set. -/
structure Data (β : Type*) where
  offset : ℕ
  mf : Bool
  bytes : List β
  deriving DecidableEq, Repr

/-- An IP packet with the options of its DSR header and what follows it. -/
structure Packet (β : Type*) where
  saddr : Addr
  daddr : Addr
  /-- The length of the IP header in words. -/
  ihl : Fin 16
  ttl : ℕ
  opts : List Opt
  data : Data β
  deriving DecidableEq, Repr

/-- A packet in `rxmt_q`: a copy that waits for its acknowledgement. -/
structure Unacked (β : Type*) where
  packet : Packet β
  ident : Ident
  /-- The neighbour it was sent to, if the kernel knew one. -/
  nextHop : Option Addr

/-- A packet in `send_q`: it waits for a route. -/
structure Waiting (β : Type*) where
  packet : Packet β
  fwdaddr : Addr

/-- `struct rt_req_entry`; an entry whose target is zero is free. The timer of an entry in use
is pending. -/
structure RtReq where
  taddr : Addr
  time : ℕ
  timeout : ℕ
  nReq : ℕ
  deriving DecidableEq, Repr

def RtReq.used (e : RtReq) : Bool :=
  e.taddr != 0

def RtReq.clear (e : RtReq) : RtReq :=
  { e with taddr := 0 }

/-- `rt_req_table` and `rt_req_table_size`. -/
structure ReqTable where
  entries : List RtReq
  size : ℕ

/-- The variables of the module. What it sends and what it hands on to the kernel without its
header is kept in `sent`, with the neighbour it goes to, and in `delivered`. -/
structure Node (β : Type*) where
  cache : RtCache
  ids : IdTable
  reqs : ReqTable
  ackId : Ident
  rtreqId : Ident
  rxmtQ : List (Unacked β)
  sendQ : List (Waiting β)
  jitterQ : List (Packet β)
  sent : List (Addr × Packet β)
  delivered : List (Packet β)

variable {β : Type*}

/-- `init_module`; the two counters start at random. -/
def Node.init (ackId rtreqId : Ident) : Node β where
  cache := .init
  ids := .init
  reqs := ⟨List.replicate reqTableSize ⟨0, 0, 0, 0⟩, 0⟩
  ackId := ackId
  rtreqId := rtreqId
  rxmtQ := []
  sendQ := []
  jitterQ := []
  sent := []
  delivered := []

def dsrRxmtBufferSize : ℕ := 300

def sendBufferSize : ℕ := 50

def maxReqRxmt : ℕ := 16

/-- `REQ_PERIOD`, in ticks of 10 ms. -/
def reqPeriod : ℕ := 25

/-- `MAX_REQ_PERIOD`, in ticks of 10 ms. -/
def maxReqPeriod : ℕ := 100

/-! ### Sending -/

/-- `ihl` of a header without options. -/
def bareIhl : Fin 16 := ⟨5, by decide⟩

def createDsrPacket (h : Host) (daddr : Addr) (opts : List Opt) : Packet β where
  saddr := h.ipaddr
  daddr := daddr
  ihl := bareIhl
  ttl := maxRouteLen + 1
  opts := opts
  data := ⟨0, false, []⟩

/-- `ack_q_add`; nothing is kept when the queue is full. -/
def ackQAdd (p : Packet β) (nextHop : Option Addr) (n : Node β) : Node β :=
  if n.rxmtQ.length = dsrRxmtBufferSize then n
  else { n with rxmtQ := n.rxmtQ ++ [⟨p, n.ackId, nextHop⟩] }

/-- `dsr_output`, and the kernel's output of a packet. -/
def output (p : Packet β) (nextHop : Addr) (n : Node β) : Node β :=
  { n with sent := n.sent ++ [(nextHop, p)] }

def outputAcked (p : Packet β) (nextHop : Addr) (n : Node β) : Node β :=
  output p nextHop (ackQAdd p nextHop n)

def firstHop (h : Host) (daddr : Addr) (addr : List Addr) : Option Addr :=
  h.nextHop (addr.headD daddr)

/-- A packet of the module's own that goes along the source route `addr`: the options, then an
acknowledgement request and the source route. It is freed if the kernel has no route. -/
def sendAlong (h : Host) (daddr : Addr) (opts : List Opt) (addr : List Addr) (n : Node β) :
    Node β :=
  let n := { n with ackId := n.ackId + 1 }
  let p := createDsrPacket h daddr
    (opts ++ [.ackReq n.ackId h.ipaddr, .srcRt addr.length addr])
  (firstHop h daddr addr).elim n fun hop => outputAcked p hop n

def sendRtReply (h : Host) (saddr : Addr) (ident : Ident) (addr : List Addr) : Node β → Node β :=
  sendAlong h saddr [.pad, .rtReply ident addr] addr.reverse

def finishSendRtReq (h : Host) (taddr : Addr) (n : Node β) : Node β :=
  { n with
    rtreqId := n.rtreqId + 1
    jitterQ := n.jitterQ ++ [createDsrPacket h h.bcast [.rtReq n.rtreqId taddr []]] }

/-- `rebcast_rt_req`, for a request that is the only option of its packet. -/
def rebcastRtReq (h : Host) (p : Packet β) (ident : Ident) (taddr : Addr) (addr : List Addr)
    (n : Node β) : Node β :=
  { n with jitterQ := n.jitterQ ++ [{ p with opts := [.rtReq ident taddr (addr ++ [h.ipaddr])] }] }

def sendAckReply (h : Host) (ident : Ident) (saddr : Addr) (n : Node β) : Node β :=
  (h.nextHop saddr).elim n fun hop =>
    output (createDsrPacket h saddr [.ack ident h.ipaddr saddr]) hop n

/-- What `dsr_send` makes of a packet's data where `room` bytes fit a packet: one piece, or the
pieces of `dsr_fragment_send`, all but the last of which are whole units of eight bytes. With less
room than that its loop would not end. -/
def Data.fragments (room : ℕ) (d : Data β) : Option (List (Data β)) :=
  if d.bytes.length ≤ room then some [d]
  else if 8 ≤ room then
    let len := room / 8 * 8
    (Data.fragments room ⟨d.offset + len, d.mf, d.bytes.drop len⟩).map
      (⟨d.offset, true, d.bytes.take len⟩ :: ·)
  else none
termination_by d.bytes.length
decreasing_by
  rw [List.length_drop]
  omega

/-- One packet of `dsr_send` or `dsr_fragment_send`. -/
def sendPiece (h : Host) (p : Packet β) (rt : RtEntry) (hop : Addr) (n : Node β) (d : Data β) :
    Node β :=
  let n := { n with ackId := n.ackId + 1 }
  outputAcked { p with
    opts := [.srcRt rt.segsLeft rt.path, .ackReq n.ackId h.ipaddr], data := d } hop n

/-- The length of the header that `dsr_send` adds. -/
def dsrHeaderLen (segsLeft : ℕ) : ℕ :=
  segsLeft * 4 + 4 + 4 + 8

/-- `dsr_send`, for a packet whose length with the header fits its field. Where the kernel has no
route to the first relay, the packet keeps the one to its destination. -/
def dsrSend (h : Host) (p : Packet β) (rt : RtEntry) (n : Node β) : Option (Node β) :=
  ((firstHop h p.daddr rt.path).or (h.nextHop p.daddr)).elim (some n) fun hop =>
    (p.data.fragments (h.pmtu - (4 * p.ihl + dsrHeaderLen rt.segsLeft))).map
      (List.foldl (sendPiece h p rt hop) n)

/-! ### Route requests of this node -/

/-- The slot of `send_rt_req`: the last one that is free, or the oldest. -/
def ReqTable.slot (t : ReqTable) : ℕ :=
  if t.size < reqTableSize then SlotTable.lastFree RtReq.used t.entries
  else SlotTable.oldest RtReq.used RtReq.time t.entries

def sendRtReq (h : Host) (jiffies : ℕ) (taddr : Addr) (n : Node β) : Node β :=
  if n.reqs.entries.any fun e => e.used && e.taddr == taddr then n
  else finishSendRtReq h taddr
    { n with reqs :=
      { entries := n.reqs.entries.modify n.reqs.slot fun _ => ⟨taddr, jiffies, reqPeriod, 1⟩
        size := if n.reqs.size < reqTableSize then n.reqs.size + 1 else n.reqs.size } }

/-- The entry when one more request has been sent: the time to the next one doubles, up to a
second. -/
def RtReq.retry (e : RtReq) : RtReq :=
  { e with
    nReq := e.nReq + 1
    timeout := if e.timeout * 2 < maxReqPeriod then e.timeout * 2 else maxReqPeriod }

/-- `rt_req_timeout` for the entry `i`. -/
def rtReqTimeout (h : Host) (i : ℕ) (n : Node β) : Option (Node β) :=
  n.reqs.entries[i]?.bind fun e =>
    if e.used then
      if e.nReq < maxReqRxmt then
        some { finishSendRtReq h e.taddr n with
          reqs := { n.reqs with entries := n.reqs.entries.modify i RtReq.retry } }
      else some { n with reqs := ⟨n.reqs.entries.modify i RtReq.clear, n.reqs.size - 1⟩ }
    else none

def removeRtReqId (daddr : Addr) (t : ReqTable) : Option ReqTable :=
  (SlotTable.find RtReq.used (fun e => e.taddr == daddr) t.size 0 0 t.entries).map fun slot =>
    slot.elim t fun i => ⟨t.entries.modify i RtReq.clear, t.size - 1⟩

/-! ### Routes -/

/-- The loop of `check_send_q` over the packets `ws`; the ones for which there is no route go back
to the queue. -/
def checkSendQ (h : Host) (now : ℕ) : List (Waiting β) → Node β → Option (Node β)
  | [], n => some n
  | w :: ws, n =>
      let r := lookupRoute now w.fwdaddr n.cache
      match r.2 with
      | some rt => (dsrSend h w.packet rt { n with cache := r.1 }).bind (checkSendQ h now ws)
      | none => checkSendQ h now ws { n with cache := r.1, sendQ := n.sendQ ++ [w] }

/-- The loop of `add_forward_route` and `add_reverse_route`. -/
def learnOffers (now : ℕ) : List Offer → Node β → Option (Node β)
  | [], n => some n
  | o :: offers, n =>
      (learnRoute now o.1 o.2.1 o.2.2 n.cache).bind fun r =>
        (if r.2 then removeRtReqId o.1 n.reqs else some n.reqs).bind fun reqs =>
          learnOffers now offers { n with cache := r.1, reqs := reqs }

/-- `add_reverse_route` and `add_forward_route` with what they offer. -/
def addRoutes (h : Host) (now : ℕ) (offers : List Offer) (n : Node β) : Option (Node β) :=
  (learnOffers now offers n).bind fun n => checkSendQ h now n.sendQ { n with sendQ := [] }

def addReverseRoute (h : Host) (now : ℕ) (daddr : Addr) (addr : List Addr) :
    Node β → Option (Node β) :=
  addRoutes h now (reverseOffers h.subnet daddr addr)

def addForwardRoute (h : Host) (now : ℕ) (daddr : Addr) (addr : List Addr) (beyond : ℕ → Addr) :
    Node β → Option (Node β) :=
  addRoutes h now (forwardOffers h.subnet daddr addr beyond)

/-! ### Packets from the interface -/

structure Passing where
  /-- The options that have been gone through, as they now are. -/
  done : List Opt
  /-- An acknowledgement request was among them. -/
  ackreq : Bool
  /-- The neighbour that the source route leads to. -/
  nextHop : Option Addr

def procRtReqOpt (h : Host) (now : ℕ) (p : Packet β) (ident : Ident) (taddr : Addr)
    (addr : List Addr) (n : Node β) : Option (Node β) :=
  if p.saddr = h.ipaddr then some n
  else (addReverseRoute h now p.saddr addr n).bind fun n =>
    if taddr = h.ipaddr then some (sendRtReply h p.saddr ident addr n)
    else (passRequest now p.saddr ident (addr.contains h.ipaddr) n.ids).map fun r =>
      if r.2 then rebcastRtReq h p ident taddr addr { n with ids := r.1 } else { n with ids := r.1 }

def procRtReplyOpt (h : Host) (now : ℕ) (beyond : ℕ → Addr) (p : Packet β) (addr : List Addr)
    (n : Node β) : Option (Node β) :=
  if p.daddr = h.ipaddr then addForwardRoute h now p.saddr addr beyond n else some n

def procRtErrOpt (h : Host) (now : ℕ) (errsaddr typeinfo : Addr) (n : Node β) : Node β :=
  { n with cache := removeRoute now h.ipaddr errsaddr typeinfo n.cache }

def forwards (h : Host) (p : Packet β) : Bool :=
  p.daddr != h.ipaddr && (!h.gw || h.subnet p.daddr)

/-- The first `qLen` packets of the queue turned, up to the one with the identification, which is
taken out. -/
def turnOut (ident : Ident) (qLen : ℕ) (us : List (Unacked β)) : List (Unacked β) :=
  ((us.take qLen).findIdx? fun u => u.ident == ident).elim (us.drop qLen ++ us.take qLen) fun i =>
    us.drop (i + 1) ++ us.take i

/-- `proc_ack_reply_opt`. The length of the queue is taken before the new route lets packets that
waited for it follow. -/
def procAckReplyOpt (h : Host) (now : ℕ) (p : Packet β) (ident : Ident) (n : Node β) :
    Option (Node β) :=
  (addForwardRoute h now p.saddr [] (fun _ => 0) n).map fun n' =>
    { n' with rxmtQ := turnOut ident n.rxmtQ.length n'.rxmtQ }

/-- `proc_src_rt_opt`: the node, the segments left, and the next hop of a packet that goes on; the
packet is dropped if the kernel has no route to it. A count of segments that is zero or exceeds
the list is not the case it is written for. -/
def procSrcRtOpt (h : Host) (now : ℕ) (beyond : ℕ → Addr) (p : Packet β) (segsLeft : ℕ)
    (addr : List Addr) (n : Node β) : Option (Node β × Option (ℕ × Option Addr)) :=
  if p.daddr = h.ipaddr ∨ (h.gw = true ∧ h.subnet p.daddr = false) then
    (addReverseRoute h now p.saddr addr n).map (·, some (segsLeft, none))
  else if 0 < segsLeft ∧ segsLeft ≤ addr.length then
    let segs := segsLeft - 1
    let i := addr.length - segs
    (addForwardRoute h now p.daddr (addr.drop i) beyond n).bind fun n =>
      (addReverseRoute h now p.saddr (addr.take (i - 1)) n).map fun n =>
        if p.ttl = 1 then (n, some (segs, none))
        else (n, (firstHop h p.daddr (addr.drop i)).map fun hop => (segs, some hop))
  else none

/-- One pass of the loop of `pre_route_handler`. The packet is dropped, with nothing left to be
done, for an option that is not known or a source route that leads nowhere. -/
def procOpt (h : Host) (now : ℕ) (beyond : ℕ → Addr) (p : Packet β) (o : Opt) (q : Passing)
    (n : Node β) : Option (Node β × Option Passing) :=
  match o with
  | .pad => some (n, some { q with done := q.done ++ [.pad] })
  | .rtReq ident taddr addr =>
      (procRtReqOpt h now p ident taddr addr n).map fun n =>
        (n, some { q with done := q.done ++ [.rtReq ident taddr addr] })
  | .rtReply ident addr =>
      (procRtReplyOpt h now beyond p addr n).map fun n =>
        (n, some { q with done := q.done ++ [.rtReply ident addr] })
  | .rtErr errsaddr errdaddr typeinfo =>
      some (procRtErrOpt h now errsaddr typeinfo n,
        some { q with done := q.done ++ [.rtErr errsaddr errdaddr typeinfo] })
  | .ackReq ident saddr =>
      let n := sendAckReply h ident saddr n
      if forwards h p then
        let n := { n with ackId := n.ackId + 1 }
        some (n, some { q with done := q.done ++ [.ackReq n.ackId h.ipaddr], ackreq := true })
      else some (n, some { q with done := q.done ++ [.ackReq ident saddr], ackreq := true })
  | .ack ident saddr daddr =>
      (procAckReplyOpt h now p ident n).map fun n =>
        (n, some { q with done := q.done ++ [.ack ident saddr daddr] })
  | .srcRt segsLeft addr =>
      (procSrcRtOpt h now beyond p segsLeft addr n).map fun r =>
        (r.1, r.2.map fun x => { q with done := q.done ++ [.srcRt x.1 addr], nextHop := x.2 })
  | .unknown => some (n, none)

/-- The loop of `pre_route_handler`. -/
def procOpts (h : Host) (now : ℕ) (beyond : ℕ → Addr) (p : Packet β) :
    List Opt → Passing → Node β → Option (Node β × Option Passing)
  | [], q, n => some (n, some q)
  | o :: os, q, n =>
      (procOpt h now beyond p o q n).bind fun r =>
        r.2.elim (some (r.1, none)) fun q => procOpts h now beyond p os q r.1

/-- What `pre_route_handler` and the kernel do with the packet after its options. -/
def finishPacket (h : Host) (p : Packet β) (q : Passing) (n : Node β) : Node β :=
  if p.daddr = h.ipaddr ∨ p.daddr = h.bcast then
    if p.data.bytes.isEmpty then n
    else { n with delivered := n.delivered ++ [{ p with opts := [] }] }
  else if h.gw = true ∧ h.subnet p.daddr = false then
    { n with delivered := n.delivered ++ [{ p with opts := [] }] }
  else if p.ttl = 1 then n
  else
    -- the kernel routes what has no source route, after the copy has been kept
    let n := if q.ackreq then ackQAdd { p with opts := q.done } q.nextHop n else n
    (q.nextHop.or (h.nextHop p.daddr)).elim n fun hop =>
      output { p with opts := q.done, ttl := p.ttl - 1 } hop n

/-- `pre_route_handler`, for a packet of the protocol. -/
def preRoute (h : Host) (now : ℕ) (beyond : ℕ → Addr) (p : Packet β) (n : Node β) :
    Option (Node β) :=
  (procOpts h now beyond p p.opts ⟨[], false, none⟩ n).map fun r =>
    r.2.elim r.1 fun q => finishPacket h p q r.1

/-! ### Packets of this node and timers -/

/-- `send_q_add`: the packet at the head is dropped when the queue is full. -/
def sendQAdd (p : Packet β) (fwdaddr : Addr) (n : Node β) : Node β :=
  if n.sendQ.length = sendBufferSize then { n with sendQ := n.sendQ.tail ++ [⟨p, fwdaddr⟩] }
  else { n with sendQ := n.sendQ ++ [⟨p, fwdaddr⟩] }

/-- What `local_out_handler` does with a packet that goes to `fwdaddr`. -/
def sendTo (h : Host) (now jiffies : ℕ) (p : Packet β) (fwdaddr : Addr) (n : Node β) :
    Option (Node β) :=
  let r := lookupRoute now fwdaddr n.cache
  match r.2 with
  | none => some (sendQAdd p fwdaddr (sendRtReq h jiffies fwdaddr { n with cache := r.1 }))
  | some rt => dsrSend h p rt { n with cache := r.1 }

/-- `BADCLASS`, `ZERONET`, `LOOPBACK` and `MULTICAST` -/
def specialAddr (x : Addr) : Bool :=
  x &&& 0xf0000000 == 0xf0000000 || x &&& 0xff000000 == 0 || x &&& 0xff000000 == 0x7f000000 ||
    x &&& 0xf0000000 == 0xe0000000

/-- `local_out_handler`; what it does not take is left to the kernel, which has found a route before
it calls the handler. -/
def localOut (h : Host) (now jiffies : ℕ) (p : Packet β) (n : Node β) : Option (Node β) :=
  if p.daddr = h.ipaddr ∨ h.subnet p.saddr = false ∨ specialAddr p.daddr then some n
  else (h.nextHop p.daddr).elim (some n) fun fwdaddr => sendTo h now jiffies p fwdaddr n

def srcRtOf : List Opt → Option (ℕ × List Addr)
  | [] => none
  | .srcRt segsLeft addr :: _ => some (segsLeft, addr)
  | _ :: os => srcRtOf os

def failedHop (h : Host) (u : Unacked β) (segsLeft : ℕ) (addr : List Addr) : Option Addr :=
  if segsLeft = 0 then if h.subnet u.packet.daddr then some u.packet.daddr else u.nextHop
  else some (addr.getD (addr.length - segsLeft) 0)

/-- `send_rt_err`: the routes over the neighbour are taken out, and the source of the packet is
told unless it is this node. -/
def sendRtErr (h : Host) (now : ℕ) (u : Unacked β) (n : Node β) : Option (Node β) :=
  (srcRtOf u.packet.opts).bind fun r =>
    (failedHop h u r.1 r.2).map fun hop =>
      let index := r.2.length - r.1
      let n := { n with cache := removeRoute now h.ipaddr h.ipaddr hop n.cache }
      if index = 0 then n
      else sendAlong h u.packet.saddr [.rtErr h.ipaddr h.ipaddr hop]
        (r.2.take (index - 1)).reverse n

/-- `ack_timeout` for the packet `k` of the queue: none is sent again. -/
def ackTimeout (h : Host) (now k : ℕ) (n : Node β) : Option (Node β) :=
  n.rxmtQ[k]?.bind fun u => sendRtErr h now u { n with rxmtQ := n.rxmtQ.eraseIdx k }

/-- `send_timeout` for the packet `k` of the queue. -/
def sendTimeout (k : ℕ) (n : Node β) : Node β :=
  { n with sendQ := n.sendQ.eraseIdx k }

/-- `jitter_send_timeout` for the packet `k` of the queue. -/
def jitterSendTimeout (h : Host) (k : ℕ) (n : Node β) : Option (Node β) :=
  n.jitterQ[k]?.map fun p => output p h.bcast { n with jitterQ := n.jitterQ.eraseIdx k }

end WirelessMesh.Dsr
