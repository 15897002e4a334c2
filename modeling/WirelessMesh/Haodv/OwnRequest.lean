import WirelessMesh.Haodv.Growth
import Mathlib.Data.Finset.Card
import Mathlib.Logic.Relation

/-!
# A node's own RREQ, when it comes back

`_dev_send_request` puts the request id into the PDU in network order and into the
flood list in host order; `_dev_rx_request` looks the id up as it lies in the PDU. So
a node knows its own RREQ again if the two orders agree on the id: always on a
big-endian host, on a little-endian one only if the bytes of the id read the same in
both directions.
-/

namespace WirelessMesh
namespace Haodv

open Routes SerialOrder ByteOrder

/-! ## A RREQ as bytes -/

/-- A RREQ as it lies in the memory of a host, and so in the datagram. The bit fields
are declared so that their byte is the same on both kinds of host. -/
def requestBytes (order : ByteOrder) (request : AodvPduRequest) : List U8 :=
  [request.type,
   BitVec.ofBool request.j ++ BitVec.ofBool request.r ++ BitVec.ofBool request.g ++
     BitVec.ofBool request.d ++ BitVec.ofBool request.u ++ request.reserved,
   request.secondReserved, request.metric] ++
  (store32 order request.rreqId ++ (store32 order request.dstIp ++
    (store32 order request.dstSeq ++ (store32 order request.srcIp ++
      store32 order request.srcSeq))))

def readRequest (order : ByteOrder) (data : List U8) : AodvPduRequest where
  type := data.getD 0 0
  j := (data.getD 1 0).getLsbD 7
  r := (data.getD 1 0).getLsbD 6
  g := (data.getD 1 0).getLsbD 5
  d := (data.getD 1 0).getLsbD 4
  u := (data.getD 1 0).getLsbD 3
  reserved := (data.getD 1 0).extractLsb' 0 3
  secondReserved := data.getD 2 0
  metric := data.getD 3 0
  rreqId := load32 order (data.drop 4)
  dstIp := load32 order (data.drop 8)
  dstSeq := load32 order (data.drop 12)
  srcIp := load32 order (data.drop 16)
  srcSeq := load32 order (data.drop 20)

theorem exists_store32 (order : ByteOrder) (x : U32) : ∃ a b c d,
    store32 order x = [a, b, c, d] := by
  cases order <;> exact ⟨_, _, _, _, rfl⟩

theorem flags_read (b : U8) :
    BitVec.ofBool (b.getLsbD 7) ++ BitVec.ofBool (b.getLsbD 6) ++ BitVec.ofBool (b.getLsbD 5) ++
      BitVec.ofBool (b.getLsbD 4) ++ BitVec.ofBool (b.getLsbD 3) ++ b.extractLsb' 0 3 = b := by
  ext i hi
  simp only [BitVec.getElem_append, BitVec.getElem_extractLsb', BitVec.getElem_ofBool]
  grind

theorem requestBytes_readRequest (order order' : ByteOrder) (request : AodvPduRequest)
    (metric : U8) :
    requestBytes order' { readRequest order' (requestBytes order request) with metric := metric } =
      requestBytes order { request with metric := metric } := by
  obtain ⟨a₁, a₂, a₃, a₄, ha⟩ := exists_store32 order request.rreqId
  obtain ⟨b₁, b₂, b₃, b₄, hb⟩ := exists_store32 order request.dstIp
  obtain ⟨c₁, c₂, c₃, c₄, hc⟩ := exists_store32 order request.dstSeq
  obtain ⟨d₁, d₂, d₃, d₄, hd⟩ := exists_store32 order request.srcIp
  obtain ⟨e₁, e₂, e₃, e₄, he⟩ := exists_store32 order request.srcSeq
  simp only [requestBytes, readRequest, ha, hb, hc, hd, he, List.cons_append, List.nil_append,
    List.getD_cons_zero, List.getD_cons_succ, List.drop_succ_cons, List.drop_zero, flags_read,
    store32_load32]

theorem readRequest_requestBytes (order : ByteOrder) (request : AodvPduRequest) :
    (readRequest order (requestBytes order request)).srcIp = request.srcIp ∧
      (readRequest order (requestBytes order request)).rreqId = request.rreqId := by
  have hdrop (x : U32) (rest : List U8) : (store32 order x ++ rest).drop 4 = rest :=
    List.drop_left' (length_store32 order x)
  have hsplit (n : ℕ) (x : U32) (rest : List U8) :
      (store32 order x ++ rest).drop (4 + n) = rest.drop n := by
    rw [← List.drop_drop, hdrop]
  constructor
  · change load32 order ((store32 order request.rreqId ++ _).drop (4 + (4 + (4 + 0)))) = _
    rw [hsplit, hsplit, hsplit, List.drop_zero, load32_store32]
  · exact load32_store32 order request.rreqId _

variable {conf : NodeConf} {env : Env}

/-! ## Copies -/

/-- Some node of this program received the first datagram and sent the second. -/
def Relay (data data' : List U8) : Prop :=
  ∃ conf env dev task node done f request,
    rxRequest conf env dev task (readRequest conf.order data) node = some done ∧
      f ∈ done.sent ∧ f.pdu = .request request ∧ data' = requestBytes conf.order request

def Copy : List U8 → List U8 → Prop := Relation.TransGen Relay

theorem devUnicast_pdu {neighs : NeighList} {dev : RouteDev} {p : Option ℕ} {ttl : U8} {pdu : Pdu}
    {sent : List Frame} (h : devUnicast env neighs dev p ttl pdu = some sent) :
    ∀ f ∈ sent, f.pdu = pdu := by
  obtain ⟨q, -, h⟩ := Option.bind_eq_some_iff.mp h
  obtain rfl := Option.some.inj h
  intro f hf
  split_ifs at hf
  · simp at hf
  · obtain rfl := List.mem_singleton.mp hf
    rfl

theorem broadcast_pdu {ttl : U8} {pdu : Pdu} {f : Frame} (h : f ∈ conf.broadcast ttl pdu) :
    f.pdu = pdu := by
  obtain ⟨dev, -, hf⟩ := List.mem_flatMap.mp h
  unfold NodeConf.devBroadcast at hf
  split_ifs at hf
  · simp at hf
  · obtain rfl := List.mem_singleton.mp hf
    rfl

theorem sendReply_sent {dev : RouteDev} {task : PduTask} {node : RouteNode} {done : Done}
    (h : sendReply conf env dev task node = some done) :
    ∀ f ∈ done.sent, ∀ request, f.pdu ≠ .request request := by
  unfold sendReply at h
  split at h
  · obtain rfl := Option.some.inj h
    simp
  · split at h
    · obtain rfl := Option.some.inj h
      simp
    · split_ifs at h
      · obtain rfl := Option.some.inj h
        simp
      · obtain ⟨sent, hsent, h⟩ := Option.bind_eq_some_iff.mp h
        obtain rfl := Option.some.inj h
        intro f hf request hreq
        rw [devUnicast_pdu hsent f hf] at hreq
        cases hreq

/-- The only RREQ a handler passes on is the one it got, with the metric raised. -/
theorem rxRequest_forwards {dev : RouteDev} {task : PduTask} {request request' : AodvPduRequest}
    {node : RouteNode} {done : Done} {f : Frame}
    (h : rxRequest conf env dev task request node = some done) (hf : f ∈ done.sent)
    (hpdu : f.pdu = .request request') :
    request' = { request with metric := request.metric + 1 } := by
  unfold rxRequest at h
  split_ifs at h
  · obtain rfl := Option.some.inj h
    simp at hf
  · obtain rfl := Option.some.inj h
    simp at hf
  · obtain ⟨⟨t, answer⟩, -, h⟩ := Option.bind_eq_some_iff.mp h
    cases answer with
    | false =>
        obtain rfl := Option.some.inj h
        rw [broadcast_pdu hf] at hpdu
        exact (Pdu.request.inj hpdu).symm
    | true =>
        obtain ⟨d, hsend, h⟩ := Option.bind_eq_some_iff.mp h
        obtain rfl := Option.some.inj h
        exact absurd hpdu (sendReply_sent hsend f hf request')

theorem Relay.bytes {order : ByteOrder} {request : AodvPduRequest} {data : List U8}
    (h : Relay (requestBytes order request) data) :
    ∃ metric, data = requestBytes order { request with metric := metric } := by
  obtain ⟨conf, env, dev, task, node, done, f, request', hrx, hf, hpdu, rfl⟩ := h
  rw [rxRequest_forwards hrx hf hpdu]
  exact ⟨_, requestBytes_readRequest order conf.order request _⟩

theorem Copy.bytes {order : ByteOrder} {request : AodvPduRequest} {data : List U8}
    (h : Copy (requestBytes order request) data) :
    ∃ metric, data = requestBytes order { request with metric := metric } := by
  induction h with
  | single h => exact h.bytes
  | tail _ h ih =>
      obtain ⟨metric, rfl⟩ := ih
      exact h.bytes

theorem Copy.read {order : ByteOrder} {request : AodvPduRequest} {data : List U8}
    (h : Copy (requestBytes order request) data) :
    (readRequest order data).srcIp = request.srcIp ∧
      (readRequest order data).rreqId = request.rreqId := by
  obtain ⟨metric, rfl⟩ := h.bytes
  exact readRequest_requestBytes order { request with metric := metric }

def bareConf : NodeConf where
  order := .big
  supportGateway := false
  broadcastAddress := BitVec.allOnes 32
  address := ⟨0x0a000100, 0⟩
  devs := [lanDev 0x0a000002]

def bareNode : RouteNode := ⟨.empty, none, .empty, [], [], []⟩

theorem exists_relay (data : List U8) : ∃ data', Relay data data' := by
  have hrelay : rxRequest bareConf { Env.plenty 0 with mem := fun _ => false } (lanDev 0x0a000002)
      (ipTask (lanDev 0x0a000002) .rreq (lanDatagram 0x0a000001 .none)) (readRequest .big data)
      bareNode = some ⟨0, bareNode, bareConf.broadcast 9 (.request { readRequest .big data with
        metric := (readRequest .big data).metric + 1 })⟩ := by
    have hempty (env : Env) (a : U32) : routeLookup env a .empty = (.empty, none) := rfl
    have hnobody (task : PduTask) : neighLookup task .empty = none := rfl
    simp [rxRequest, bareNode, bareConf, ipTask, lanDatagram, netDiameter, floodLookup, lastHop,
      hnobody, neighInsert, reverseRoute, hempty, routeInsert, requestShouldBeReply, floodInsert]
  exact ⟨_, _, _, _, _, _, _, _, _, hrelay, List.mem_singleton_self _, rfl, rfl⟩

/-! ## The flood list -/

inductive FloodStep (env : Env) : List RouteFlood → List RouteFlood → Prop
  | same {floods : List RouteFlood} : FloodStep env floods floods
  | pushed {flood : RouteFlood} {floods : List RouteFlood}
      (h : flood.lifetime = env.now + pathDiscoveryTime) : FloodStep env floods (flood :: floods)
  | flushed {floods : List RouteFlood} : FloodStep env floods
      (floods.filter fun flood => !timeBefore flood.lifetime env.now)

theorem floodInsert_step (orig dest : AodvAddress) (reqId : U32) (floods : List RouteFlood) :
    FloodStep env floods
      (floodInsert env orig dest reqId (env.now + pathDiscoveryTime) floods).1 := by
  unfold floodInsert
  split_ifs
  · exact .same
  · exact .pushed rfl
  · exact .same

theorem sendRequest_floods (conf : NodeConf) (env : Env) (dev : RouteDev) (retry : RouteTask)
    (node : RouteNode) :
    FloodStep env node.floods (sendRequest conf env dev retry node).node.floods := by
  obtain ⟨t, heq, -⟩ | ⟨t, p, own, dst, timers, -, -, -, heq, -⟩ :=
    sendRequest_cases conf env dev retry node
  · rw [heq]
    exact .same
  · rw [heq]
    exact floodInsert_step _ _ _ _

theorem handlePdu_floods {task : PduTask} {node : RouteNode} {done : Done}
    (h : handlePdu conf env task node = some done) :
    FloodStep env node.floods done.node.floods := by
  obtain ⟨dev, -, h⟩ := Option.bind_eq_some_iff.mp h
  split at h
  · obtain ⟨-, hnode, -⟩ | tr := rxRequest_cases h
    · rw [hnode]
      exact .same
    · rw [tr.left, ← lastHop_floods conf env task node]
      exact floodInsert_step _ _ _ _
  · rw [(rxReply_growth h).2]
    exact .same
  · obtain rfl := Option.some.inj h
    exact .same
  · obtain ⟨t, hnode, -⟩ := rxError_growth h
    rw [hnode]
    exact .same
  · cases h
  · cases h
  · cases h
  · obtain rfl := Option.some.inj h
    exact .same

theorem handleEvent_floods {event : NodeEvent} {node : RouteNode} {done : Done}
    (h : handleEvent conf env node event = some done) :
    FloodStep env node.floods done.node.floods := by
  cases event with
  | input dev d =>
      obtain rfl := Option.some.inj h
      obtain ⟨timers, tasks, hnode⟩ := ipPacketInput_spec conf env dev d node
      rw [hnode]
      exact .same
  | output dev daddr =>
      obtain ⟨t, -, rfl | rfl⟩ := ipPacketOutput_cases h
      · exact .same
      · exact sendRequest_floods conf env dev (retryTask env dev daddr) { node with routes := t }
  | signal =>
      obtain rfl := Option.some.inj h
      exact .same
  | thread =>
      obtain ⟨-, hnode⟩ | ⟨task, tasks, -, h⟩ := kthread_cases h
      · rw [hnode]
        exact .same
      · cases task with
        | pdu task =>
            have hfloods := handlePdu_floods h
            exact hfloods
        | mgmt task =>
            cases handleMgmt_cases h with
            | quiet timers hnode =>
                rw [hnode]
                exact .same
            | flush floods timers hfloods hnode =>
                rw [hnode]
                rcases hfloods with rfl | rfl
                · exact .same
                · exact .flushed
            | drop hty =>
                obtain ⟨-, hfloods⟩ := neighDeleteLoop_growth conf env (some task.src) node.neighs
                  node.neighs.cells { node with tasks := tasks }
                change FloodStep env _ (neighDeleteLoop conf env (some task.src) node.neighs.cells
                  { node with tasks := tasks }).1.floods
                rw [hfloods]
                exact .same
            | request dev => exact sendRequest_floods conf env dev task { node with tasks := tasks }

/-! ## A record in its time -/

def Env.at (env : Env) (time : ℕ) : Env := { env with now := BitVec.ofNat 32 time }

def Lasts (start time : ℕ) : Prop := start ≤ time ∧ time ≤ start + pathDiscoveryTime.toNat

/-- A lookup finds a record of the request for as long as one made at `start` lasts. -/
def KnownFrom (start : ℕ) (orig reqId : U32) (floods : List RouteFlood) : Prop :=
  ∀ env time, Lasts start time → (floodLookup (Env.at env time) orig reqId floods).isSome = true

theorem lifetime_ahead {start made time : ℕ} (hmade : Lasts start made) (htime : Lasts start time) :
    timeBefore (BitVec.ofNat 32 made + pathDiscoveryTime) (BitVec.ofNat 32 time) = false := by
  have hdur : pathDiscoveryTime.toNat = 1600 := rfl
  have hsum : BitVec.ofNat 32 made + pathDiscoveryTime = BitVec.ofNat 32 (made + 1600) := by
    simp only [BitVec.ofNat_add]
    rfl
  obtain ⟨h₁, h₂⟩ := hmade
  obtain ⟨h₃, h₄⟩ := htime
  rw [timeBefore_eq_false, hsum, ahead_ofNat (by omega) (by omega)]
  omega

theorem floodLookup_congr {env' : Env} (h : env.now = env'.now) (orig reqId : U32)
    (floods : List RouteFlood) :
    floodLookup env orig reqId floods = floodLookup env' orig reqId floods := by
  induction floods with
  | nil => rfl
  | cons flood floods ih => rw [floodLookup, floodLookup, h, ih]

theorem floodLookup_alive {flood : RouteFlood} (h : timeBefore flood.lifetime env.now = false)
    (orig reqId : U32) (floods : List RouteFlood) :
    (floodLookup env orig reqId (flood :: floods)).isSome =
      ((orig == flood.orig.address && reqId == flood.reqId) ||
        (floodLookup env orig reqId floods).isSome) := by
  rw [floodLookup, h, if_neg Bool.false_ne_true]
  cases hkey : (orig == flood.orig.address && reqId == flood.reqId) <;> rfl

theorem alive_of_found {flood : RouteFlood} {orig reqId : U32} {floods : List RouteFlood}
    (h : (floodLookup env orig reqId (flood :: floods)).isSome = true) :
    timeBefore flood.lifetime env.now = false := by
  rw [floodLookup] at h
  split_ifs at h with hexp
  · simp at h
  · simpa using hexp
  · simpa using hexp

namespace KnownFrom

variable {start : ℕ} {orig reqId : U32} {floods floods' : List RouteFlood}

/-- A flush leaves the record: nothing in front of it has expired at any time at which
it is found. -/
theorem filter (h : KnownFrom start orig reqId floods) {now : ℕ} (hnow : Lasts start now)
    (env : Env) :
    KnownFrom start orig reqId
      (floods.filter fun flood => !timeBefore flood.lifetime (Env.at env now).now) := by
  induction floods with
  | nil => exact h
  | cons flood floods ih =>
      have halive (env : Env) {time : ℕ} (htime : Lasts start time) :=
        alive_of_found (h env time htime)
      rw [List.filter_cons, halive env hnow, Bool.not_false, if_pos rfl]
      intro env' time htime
      rw [floodLookup_alive (halive env' htime), Bool.or_eq_true]
      by_cases hkey : (orig == flood.orig.address && reqId == flood.reqId) = true
      · exact .inl hkey
      · refine .inr (ih (fun env'' time' htime' => ?_) env' time htime)
        have hfound := h env'' time' htime'
        rw [floodLookup_alive (halive env'' htime'), Bool.or_eq_true] at hfound
        exact hfound.resolve_left hkey

theorem step (h : KnownFrom start orig reqId floods) {env : Env} {now : ℕ} (hnow : Lasts start now)
    (hs : FloodStep (Env.at env now) floods floods') : KnownFrom start orig reqId floods' := by
  cases hs with
  | same => exact h
  | pushed hlife =>
      intro env' time htime
      have halive := lifetime_ahead hnow htime
      rw [floodLookup_alive (by rw [hlife]; exact halive), h env' time htime, Bool.or_true]
  | flushed => exact h.filter hnow env

end KnownFrom

structure Occurrence where
  time : ℕ
  env : Env
  event : NodeEvent

def Occurrence.timed (o : Occurrence) : Env × NodeEvent := (Env.at o.env o.time, o.event)

theorem KnownFrom.run {start : ℕ} {orig reqId : U32} {mid : List Occurrence}
    {node node' : RouteNode}
    (h : KnownFrom start orig reqId node.floods) (hlasts : ∀ o ∈ mid, Lasts start o.time)
    (hrun : Machine.finish (Haodv.step conf) (mid.map Occurrence.timed) node = some node') :
    KnownFrom start orig reqId node'.floods := by
  induction mid generalizing node with
  | nil =>
      obtain rfl := Option.some.inj hrun
      exact h
  | cons o mid ih =>
      obtain ⟨node₁, hstep, hrun⟩ := Option.bind_eq_some_iff.mp hrun
      obtain ⟨done, hdone, rfl⟩ := Option.map_eq_some_iff.mp hstep
      have hfloods := handleEvent_floods hdone
      exact ih (h.step (hlasts o List.mem_cons_self) hfloods)
        (fun o' ho' => hlasts o' (List.mem_cons_of_mem o ho')) hrun

/-! ## The node's own request -/

/-- A RREQ that is neither rebroadcast nor answered and that creates no route. -/
def Unheeded (conf : NodeConf) (env : Env) (dev : RouteDev) (task : PduTask)
    (request : AodvPduRequest) (node : RouteNode) : Prop :=
  ∃ done, rxRequest conf env dev task request node = some done ∧ done.sent = [] ∧
    ∀ c ∈ done.node.routes.cells, c.1 ∈ node.routes.cells.map Prod.fst

/-- Whatever happens after the RREQ went out at `start`: as long as its record lasts,
every copy of it that comes back is unheeded. -/
def OwnRequestUnheeded (conf : NodeConf) (env : Env) (start : ℕ) (dev : RouteDev)
    (retry : RouteTask) (node : RouteNode) : Prop :=
  ∀ (mid : List Occurrence) (time : ℕ) (node₂ : RouteNode),
    (start :: (mid.map Occurrence.time ++ [time])).Pairwise (· ≤ ·) → Lasts start time →
    Machine.finish (step conf) (mid.map Occurrence.timed)
      (sendRequest conf (Env.at env start) dev retry node).node = some node₂ →
    ∀ f ∈ (sendRequest conf (Env.at env start) dev retry node).sent, ∀ request,
      f.pdu = .request request → ∀ data, Copy (requestBytes conf.order request) data →
    ∀ env₂ dev₂ task,
      Unheeded conf (Env.at env₂ time) dev₂ task (readRequest conf.order data) node₂

theorem floodInsert_pushed {orig dest : AodvAddress} {reqId lifetime : U32}
    {floods : List RouteFlood} (h : 0 ≤ (floodInsert env orig dest reqId lifetime floods).2) :
    (floodInsert env orig dest reqId lifetime floods).1 =
      ⟨reqId, orig, dest, lifetime⟩ :: floods := by
  unfold floodInsert at h ⊢
  split_ifs at h ⊢
  · exact absurd h (by simp [eexist])
  · rfl
  · exact absurd h (by simp [enomem])

theorem reqId_of_lookups {dest : U32} {dev : RouteDev} {t : RouteTable} {p q : ℕ}
    {own own' : MeshRoute} (hown : t.find? (routeCompare dev.address.address) = some (p, own))
    (hown' : (routeLookup env dev.address.address (routeLookup env dest t).1).1.find?
      (routeCompare dev.address.address) = some (q, own')) : own'.reqId = own.reqId := by
  let Same (r r' : MeshRoute) : Prop := r'.address = r.address ∧ r'.reqId = r.reqId
  have hrefl (r : MeshRoute) : Same r r := ⟨rfl, rfl⟩
  have hage (r : MeshRoute) : Same r (ageRoute env r) := by
    unfold ageRoute routeExpire
    split_ifs
    · split
      · exact hrefl r
      · exact ⟨rfl, rfl⟩
    · exact hrefl r
  have hlook (a : U32) (t : RouteTable) : HeapList.Pointwise Same t (routeLookup env a t).1 :=
    HeapList.walk_pointwise hrefl hage _ t
  have hboth := HeapList.Pointwise.trans (R := Same)
    (fun h h' => ⟨h'.1.trans h.1, h'.2.trans h.2⟩) (hlook dest t)
    (hlook dev.address.address (routeLookup env dest t).1)
  have hkey {r r' : MeshRoute} (h : Same r r') : routeCompare dev.address.address r =
      routeCompare dev.address.address r' := by
    rw [routeCompare, routeCompare, h.1]
  obtain ⟨hnone, -⟩ | ⟨n, r, r', hr, hr', hsame⟩ := hboth.find?_eq hkey
  · rw [hown] at hnone
    cases hnone
  · rw [hown] at hr
    rw [hown'] at hr'
    obtain ⟨-, rfl⟩ := Prod.mk.inj (Option.some.inj hr)
    obtain ⟨-, rfl⟩ := Prod.mk.inj (Option.some.inj hr')
    exact hsame.2

theorem sendRequest_sent {dev : RouteDev} {retry : RouteTask} {node : RouteNode} {p : ℕ}
    {own : MeshRoute} (hown : node.routes.find? (routeCompare dev.address.address) = some (p, own))
    (hsent : (sendRequest conf env dev retry node).sent ≠ []) :
    (sendRequest conf env dev retry node).node.neighs = node.neighs ∧
      (sendRequest conf env dev retry node).node.floods =
        ⟨own.reqId + 1, dev.address, retry.dest, env.now + pathDiscoveryTime⟩ :: node.floods ∧
      ∃ request, request.srcIp = dev.address.address ∧
        request.rreqId = conf.htonl (own.reqId + 1) ∧
        (sendRequest conf env dev retry node).sent =
          [⟨dev, conf.broadcastAddress, netDiameter, .request request⟩] := by
  obtain ⟨t, -, hnone, -⟩ | ⟨t, q, own', dst, timers, hres, rfl, hfind, heq, -⟩ :=
    sendRequest_cases conf env dev retry node
  · exact absurd hnone hsent
  · have hid := reqId_of_lookups hown hfind
    rw [heq, floodInsert_pushed hres, hid]
    refine ⟨rfl, rfl, pduRequest conf dev retry.dest dst own', rfl, ?_, rfl⟩
    rw [pduRequest, hid]

theorem exists_stranger {neighs : NeighList} (h : neighs.cells.length < 2 ^ 32) :
    ∃ a : U32, ∀ c ∈ neighs.cells, c.2.address.address ≠ a := by
  let known := (neighs.cells.map fun c => c.2.address.address.toNat).toFinset
  have hcard : known.card < (Finset.range (neighs.cells.length + 1)).card := by
    have hle := List.toFinset_card_le (neighs.cells.map fun c => c.2.address.address.toNat)
    rw [List.length_map] at hle
    rw [Finset.card_range]
    exact Nat.lt_succ_of_le hle
  obtain ⟨n, hn, hnew⟩ := Finset.exists_mem_notMem_of_card_lt_card hcard
  refine ⟨BitVec.ofNat 32 n, fun c hc heq => hnew ?_⟩
  have hn' : n < 2 ^ 32 := by
    have := Finset.mem_range.mp hn
    omega
  refine List.mem_toFinset.mpr (List.mem_map.mpr ⟨c, hc, ?_⟩)
  rw [heq, BitVec.toNat_ofNat, Nat.mod_eq_of_lt hn']

/-- The record made for the request serves its copies if both ids agree; otherwise only
a record that was there before can. -/
theorem knownFrom_sent_iff {start : ℕ} {dev : RouteDev} {dest : AodvAddress} {id key : U32}
    {floods : List RouteFlood} :
    KnownFrom start dev.address.address key
        (⟨id, dev.address, dest, BitVec.ofNat 32 start + pathDiscoveryTime⟩ :: floods) ↔
      key = id ∨ KnownFrom start dev.address.address key floods := by
  have hstart : Lasts start start := ⟨le_rfl, Nat.le_add_right _ _⟩
  let flood : RouteFlood := ⟨id, dev.address, dest, BitVec.ofNat 32 start + pathDiscoveryTime⟩
  have halive (env : Env) {time : ℕ} (htime : Lasts start time) :
      timeBefore flood.lifetime (Env.at env time).now = false := lifetime_ahead hstart htime
  have hcons (env : Env) {time : ℕ} (htime : Lasts start time) :=
    floodLookup_alive (halive env htime) dev.address.address key floods
  constructor
  · intro h
    by_cases hid : key = id
    · exact .inl hid
    · refine .inr fun env time htime => ?_
      have hfound := h env time htime
      rw [hcons env htime] at hfound
      simpa [flood, hid] using hfound
  · rintro (rfl | h) env time htime
    · rw [hcons env htime]
      simp [flood]
    · rw [hcons env htime, h env time htime, Bool.or_true]

theorem unheeded_of_known {dev : RouteDev} {task : PduTask} {request : AodvPduRequest}
    {node : RouteNode}
    (h : (floodLookup env request.srcIp request.rreqId node.floods).isSome = true) :
    Unheeded conf env dev task request node := by
  have hself : ∀ c ∈ node.routes.cells, c.1 ∈ node.routes.cells.map Prod.fst :=
    fun c hc => List.mem_map_of_mem hc
  unfold Unheeded rxRequest
  split_ifs
  · exact ⟨_, rfl, rfl, hself⟩
  · exact ⟨_, rfl, rfl, hself⟩

theorem exists_newSender {neighs : NeighList} (dev : RouteDev) (dst : U32)
    (h : neighs.cells.length < 2 ^ 32) :
    ∃ a, neighLookup (ipTask dev .rreq ⟨0, a, dst, 2, .none⟩) neighs = none := by
  obtain ⟨a, ha⟩ := exists_stranger h
  refine ⟨a, List.find?_eq_none.mpr fun c hc hkey => ?_⟩
  simp only [Bool.and_eq_true, beq_iff_eq] at hkey
  exact ha c hc hkey.1

theorem not_unheeded_of_passes {dev : RouteDev} {task : PduTask} {request : AodvPduRequest}
    {node : RouteNode} (hpass : RequestPasses env task request node)
    (hnew : CreatesNeigh env task node.neighs) : ¬Unheeded conf env dev task request node := by
  rintro ⟨done, hrx, -, hcells⟩
  obtain ⟨hnot, -⟩ | tr := rxRequest_cases hrx
  · exact hnot hpass
  · obtain ⟨-, -, -, hnot⟩ | ⟨-, heq⟩ := lastHop_cases conf env task node
    · exact hnot hnew
    · have hkept := tr.kept
      rw [heq] at hkept
      have hmem := hkept.subset List.mem_cons_self
      obtain ⟨c, hc, hptr⟩ := List.mem_map.mp hmem
      obtain ⟨d, hd, hptr'⟩ := List.mem_map.mp (hcells c hc)
      have hlt := node.routes.fresh d hd
      dsimp only at hptr
      omega

/-- What happens between the RREQ and its return happens while the record lasts. -/
theorem lasts_of_sorted {start time : ℕ} {mid : List Occurrence}
    (hsorted : (start :: (mid.map Occurrence.time ++ [time])).Pairwise (· ≤ ·))
    (htime : Lasts start time) : ∀ o ∈ mid, Lasts start o.time := by
  intro o ho
  obtain ⟨hstart, hrest⟩ := List.pairwise_cons.mp hsorted
  have ho' : o.time ∈ mid.map Occurrence.time := List.mem_map_of_mem ho
  have hlast := (List.pairwise_append.mp hrest).2.2 o.time ho' time (by simp)
  exact ⟨hstart o.time (List.mem_append_left _ ho'), hlast.trans htime.2⟩

/-- A broadcast RREQ is unheeded whenever it comes back while its record lasts, exactly
if `htonl` leaves its id alone or the id that it carries on the wire was known
throughout already. -/
theorem ownRequestUnheeded_iff {env : Env} {start : ℕ} {dev : RouteDev} {retry : RouteTask}
    {node : RouteNode} {p : ℕ} {own : MeshRoute}
    (hown : node.routes.find? (routeCompare dev.address.address) = some (p, own))
    (hroom : node.neighs.cells.length < 2 ^ 32)
    (hsent : (sendRequest conf (Env.at env start) dev retry node).sent ≠ []) :
    OwnRequestUnheeded conf env start dev retry node ↔
      conf.htonl (own.reqId + 1) = own.reqId + 1 ∨
        KnownFrom start dev.address.address (conf.htonl (own.reqId + 1)) node.floods := by
  obtain ⟨hneighs, hfloods, request, hsrc, hid, hframes⟩ := sendRequest_sent hown hsent
  have hknown : KnownFrom start dev.address.address (conf.htonl (own.reqId + 1))
      (sendRequest conf (Env.at env start) dev retry node).node.floods ↔
      conf.htonl (own.reqId + 1) = own.reqId + 1 ∨
        KnownFrom start dev.address.address (conf.htonl (own.reqId + 1)) node.floods := by
    rw [hfloods]
    exact knownFrom_sent_iff
  rw [← hknown]
  constructor
  · intro h env₂ time htime
    by_contra hmiss
    obtain ⟨data, hrelay⟩ := exists_relay (requestBytes conf.order request)
    have hcopy : Copy (requestBytes conf.order request) data := .single hrelay
    obtain ⟨a, ha⟩ := exists_newSender dev conf.broadcastAddress hroom
    let task := ipTask dev .rreq ⟨0, a, conf.broadcastAddress, 2, .none⟩
    refine not_unheeded_of_passes ?_ ?_ (h [] time _ (by simpa using htime.1) htime rfl
      ⟨dev, conf.broadcastAddress, netDiameter, .request request⟩ (by simp [hframes]) request rfl
      data hcopy { env₂ with mem := fun _ => true } dev task)
    · refine ⟨show (1 : U8) < 2 by decide, ?_⟩
      have hnow : (Env.at { env₂ with mem := fun _ => true } time).now =
          (Env.at env₂ time).now := rfl
      rw [hcopy.read.1, hcopy.read.2, hsrc, hid, floodLookup_congr hnow]
      exact Option.not_isSome_iff_eq_none.mp hmiss
    · rw [hneighs]
      exact ⟨ha, rfl, rfl⟩
  · intro h mid time node₂ hsorted htime hrun f hf request' hpdu data hcopy env₂ dev₂ task
    rw [hframes] at hf
    obtain rfl := List.mem_singleton.mp hf
    obtain rfl := Pdu.request.inj hpdu
    refine unheeded_of_known ?_
    rw [hcopy.read.1, hcopy.read.2, hsrc, hid]
    exact h.run (lasts_of_sorted hsorted htime) hrun env₂ time htime

/-- What a node at `10.0.0.1` does at 1000 ms for a packet to `10.0.0.9`. -/
def asks (order : ByteOrder) : Done :=
  sendRequest (lanNode order true).1 (Env.at (.plenty 0) 1000) (lanDev 0x0a000001)
    (retryTask (.plenty 1000) (lanDev 0x0a000001) 0x0a000009) (lanNode order true).2

/-- A big-endian node knows its first RREQ again. -/
theorem ownRequestUnheeded_big :
    OwnRequestUnheeded (lanNode .big true).1 (.plenty 0) 1000 (lanDev 0x0a000001)
      (retryTask (.plenty 1000) (lanDev 0x0a000001) 0x0a000009) (lanNode .big true).2 := by
  have hsent : (asks .big).sent ≠ [] := by decide +kernel
  exact (ownRequestUnheeded_iff rfl (by decide) hsent).mpr (.inl (hton32_big _))

def hearsRequest (ip src : U32) : PduTask :=
  ipTask (lanDev ip) .rreq (lanDatagram src .none)

/-- The neighbour `10.0.0.2` of a little-endian node relays its RREQ with the metric
raised; the node takes it for a new one, creates a route and sends it once more. -/
theorem own_request_heeded :
    ∃ f ∈ (asks .little).sent, ∃ request, f.pdu = .request request ∧
      ∃ data done, Copy (requestBytes .little request) data ∧
        rxRequest (lanNode .little true).1 (.plenty 1010) (lanDev 0x0a000001)
          (hearsRequest 0x0a000001 0x0a000002) (readRequest .little data)
          (asks .little).node = some done ∧
        done.sent ≠ [] ∧
        (asks .little).node.routes.cells.length < done.node.routes.cells.length := by
  let request := requestPdu .little 0x0a000001 2 2 0x0a000009
  let relayed := { request with metric := 1 }
  let neighbour := boot (.plenty 0) .little true 0x0a000200 0xffffff00 [lanDev 0x0a000002]
  have hasked : (asks .little).sent =
      [⟨lanDev 0x0a000001, BitVec.allOnes 32, netDiameter, .request request⟩] := by
    decide +kernel
  have hrelay : (rxRequest neighbour.1 (.plenty 1005) (lanDev 0x0a000002)
      (hearsRequest 0x0a000002 0x0a000001) (readRequest .little (requestBytes .little request))
      neighbour.2).any (fun done => decide (∃ f ∈ done.sent, f.pdu = .request relayed)) = true := by
    decide +kernel
  have hback : (rxRequest (lanNode .little true).1 (.plenty 1010) (lanDev 0x0a000001)
      (hearsRequest 0x0a000001 0x0a000002) (readRequest .little (requestBytes .little relayed))
      (asks .little).node).any (fun done => decide (done.sent ≠ [] ∧
        (asks .little).node.routes.cells.length < done.node.routes.cells.length)) = true := by
    decide +kernel
  obtain ⟨done₁, hrx₁, hsent⟩ := (Option.any_eq_true _ _).mp hrelay
  obtain ⟨f, hf, hpdu⟩ := of_decide_eq_true hsent
  obtain ⟨done₂, hrx₂, hheeded⟩ := (Option.any_eq_true _ _).mp hback
  have hcopy : Copy (requestBytes .little request) (requestBytes .little relayed) :=
    .single ⟨_, _, _, _, _, done₁, f, relayed, hrx₁, hf, hpdu, rfl⟩
  exact ⟨_, by rw [hasked]; exact List.mem_singleton_self _, request, rfl, _, done₂, hcopy, hrx₂,
    of_decide_eq_true hheeded⟩

end Haodv
end WirelessMesh
