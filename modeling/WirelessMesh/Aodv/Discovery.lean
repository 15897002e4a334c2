import WirelessMesh.Aodv.NoStranded
import WirelessMesh.Maodv.HelloTimers
import Mathlib.Data.List.Chain

/-!
# The schedule of a route discovery

`__aodv_pdu_request_create` broadcasts a RREQ and leaves a RESEND_RREQ timer with the number of
retries; `aodv_pdu_request_resend_ttl` repeats the RREQ as long as there are retries, and gives
the waiting packets up after that. The waits should double from one RREQ to the next, but the
`^` in `2 ^ (RREQ_RETRIES - retries)` is exclusive or: they are two, three and zero times
NET_TRAVERSAL_TIME. The packets are given up in the millisecond of the last RREQ.
-/

namespace WirelessMesh
namespace Aodv

open Routes SerialOrder KeyedQueue Machine
open Maodv (EngineConf Env RouteDev RouteTask Frame RouteTable MeshRoute timerInsertRequest
  resendDelay timerEnqueue_eq timerFind floodInsert)

/-! ## One discovery -/

structure Shot where
  time : U32
  rreqId : U32
  srcSeq : U32
  deriving DecidableEq, Repr

/-- The module while nobody answers for a destination: the RREQs for it, the latest first, and
when its packets were given up. -/
structure Discovery where
  state : State
  requests : List Shot
  dropped : Option U32

def resends (d : U32) (timers : List RouteTask) : List RouteTask :=
  pending RouteTask.key (taskResendRreq, d) timers

def Done.requestFor (done : Done) (d : U32) : Option AodvPduRequest :=
  done.sent.findSome? fun frame => match frame.pdu with
    | .request request => if request.dstIp = d then some request else none
    | .none => none
    | .reply _ => none
    | .error _ => none
    | .replyAck => none

def Done.shots (done : Done) (d now : U32) (requests : List Shot) : List Shot :=
  match done.requestFor d with
  | some request => ⟨now, request.rreqId, request.srcSeq⟩ :: requests
  | none => requests

/-- `__aodv_pdu_request_create` is called for `d`. -/
def Discovery.create (conf : EngineConf) (env : Env) (d : U32) (a : State) : Discovery :=
  let done := pduRequestCreate conf env d a
  ⟨done.state, done.shots d env.now [], none⟩

/-- The module does something else, or the discovery's timer is due. -/
inductive DiscoveryEvent where
  | other (a : State)
  | fire (env : Env)

/-- The other work of the module leaves the discovery's timer alone, as nobody answers. The timer
is run exactly at its time: it leaves the queue and its task is handled. -/
def Discovery.step (conf : EngineConf) (d : U32) : DiscoveryEvent → Discovery → Option Discovery
  | .other a, s =>
      if resends d a.timers ⊆ resends d s.state.timers ∧
          resends d s.state.timers ⊆ resends d a.timers then some { s with state := a }
      else none
  | .fire env, s =>
      match resends d s.state.timers with
      | [] => none
      | task :: _ =>
          if env.now = task.time then
            let timers := delete RouteTask.key (taskResendRreq, d) s.state.timers
            let done := pduRequestResendTtl conf env task { s.state with timers := timers }
            some ⟨done.state, done.shots d env.now s.requests,
              if task.retries ≤ 0 then some env.now else s.dropped⟩
          else none

namespace Discovery

/-- When the RREQs were sent and the packets were given up, the latest first. -/
def times (s : Discovery) : List U32 := s.dropped.toList ++ s.requests.map Shot.time

def waits (s : Discovery) : List U32 := List.zipWith (· - ·) s.times s.times.tail

structure OnSchedule (d : U32) (s : Discovery) : Prop where
  begun : s.requests ≠ []
  fresh : (s.requests.map Shot.rreqId).Nodup
  larger : s.requests.IsChain fun newer older => 0 < ahead newer.srcSeq older.srcSeq
  apart : ∀ wait ∈ s.waits, netTraversalTime ≤ wait
  growing : s.waits.IsChain fun newer older => older ≤ newer
  complete : resends d s.state.timers = [] →
    s.requests.length = 1 + rreqRetries.toNat ∧ s.dropped ≠ none

/-- No discovery for `d` is running and the first request gets all it takes. -/
def Starts (conf : EngineConf) (env : Env) (d : U32) (a : State) : Prop :=
  resends d a.timers = [] ∧ conf.devs ≠ [] ∧ creates conf env d a = true

/-- The source's route has numbers that this discovery has not used. -/
def NewNumbers (env : Env) (task : RouteTask) (s : Discovery) : Prop :=
  ∀ p route, (Aodv.routeFind env task.srcIp
      (Aodv.routeFind env task.dstIp s.state.routes).1).2 = some (p, route) →
    route.rreqId + 1 ∉ s.requests.map Shot.rreqId ∧
      ∀ shot ∈ s.requests.head?, 0 < ahead (route.seq + 1) shot.srcSeq

/-- The step repeats the request, with new numbers and a new timer. -/
def Repeats (d : U32) : DiscoveryEvent → Discovery → Prop
  | .other _, _ => True
  | .fire env, s => ∀ task ∈ (resends d s.state.timers).head?,
      0 < task.retries ∧ renews env task s.state = true ∧ s.NewNumbers env task

end Discovery

/-! ## A request that is issued -/

section Issue

variable {conf : EngineConf} {env : Env} {d : U32} {a : State}

theorem resends_eq_nil_iff {timers : List RouteTask} :
    resends d timers = [] ↔ ¬∃ task ∈ timers, ResendFor d task := by
  rw [resends, pending_eq_nil_iff]
  simp [RouteTask.key, ResendFor]

theorem timerFind_isSome_iff {timers : List RouteTask} :
    (timerFind d taskResendRreq timers).isSome = true ↔ resends d timers ≠ [] := by
  rw [timerFind, List.find?_isSome, ne_eq, resends, pending_eq_nil_iff]
  simp [RouteTask.key, and_comm]

/-- The timer of `aodv_timer_insert_request`. -/
def resendTimer (env : Env) (srcIp destIp : U32) (retries : U8) : RouteTask where
  type := taskResendRreq
  id := destIp
  time := env.now + resendDelay retries
  dstIp := destIp
  srcIp := srcIp
  dev := none
  ttl := 30
  retries := retries.zeroExtend 16
  data := .none

theorem resends_timerEnqueue {timers : List RouteTask} (hnone : resends d timers = [])
    (env : Env) (srcIp : U32) (retries : U8) :
    resends d (Maodv.timerEnqueue (resendTimer env srcIp d retries) timers) =
      [resendTimer env srcIp d retries] := by
  have henqueue := pending_enqueue RouteTask.key (resendTimer env srcIp d retries) timers
  rw [timerEnqueue_eq]
  exact henqueue.trans (if_pos hnone)

variable (conf) in
theorem issueRequest_spec {srcIp destIp : U32} (h : issues env srcIp destIp a = true)
    (dest : Bool) (retries : U8) : ∃ p route request,
      (routeFind env srcIp (routeFind env destIp a.routes).1).2 = some (p, route) ∧
      request.rreqId = route.rreqId + 1 ∧ request.srcSeq = route.seq + 1 ∧
      request.dstIp = destIp ∧
      (issueRequest conf env srcIp destIp dest retries a).sent =
        conf.broadcast netDiameter (.request request) ∧
      (issueRequest conf env srcIp destIp dest retries a).state.timers =
        Maodv.timerEnqueue (resendTimer env srcIp destIp retries) a.timers := by
  unfold issues at h
  unfold issueRequest
  dsimp only
  generalize routeFind env srcIp (routeFind env destIp a.routes).1 = found at h
  obtain ⟨routes, found⟩ := found
  cases found with
  | none => cases h
  | some c =>
      obtain ⟨p, route⟩ := c
      simp only [Bool.and_eq_true, decide_eq_true_eq] at h
      dsimp only
      rw [if_neg (not_lt.mpr h.1)]
      refine ⟨p, route, _, rfl, rfl, rfl, rfl, rfl, ?_⟩
      simp only [timerInsertRequest, h.2, if_true]
      rfl

theorem requestFor_broadcast {done : Done} {request : AodvPduRequest} (hdevs : conf.devs ≠ [])
    (hsent : done.sent = conf.broadcast netDiameter (.request request))
    (hdst : request.dstIp = d) : done.requestFor d = some request := by
  obtain ⟨dev, devs, heq⟩ := List.exists_cons_of_ne_nil hdevs
  have hone : ¬netDiameter < 1 := by decide
  rw [Done.requestFor, hsent, EngineConf.broadcast, if_neg hone, heq]
  simp [hdst]

theorem issueRequest_shots {srcIp : U32} (hdevs : conf.devs ≠ [])
    (h : issues env srcIp d a = true) (hnone : resends d a.timers = []) (dest : Bool)
    (retries : U8) : ∃ p route,
      (routeFind env srcIp (routeFind env d a.routes).1).2 = some (p, route) ∧
      (∀ now requests, (issueRequest conf env srcIp d dest retries a).shots d now requests =
        ⟨now, route.rreqId + 1, route.seq + 1⟩ :: requests) ∧
      resends d (issueRequest conf env srcIp d dest retries a).state.timers =
        [resendTimer env srcIp d retries] := by
  obtain ⟨p, route, request, hfound, hid, hseq, hdst, hsent, htimers⟩ :=
    issueRequest_spec conf h dest retries
  refine ⟨p, route, hfound, fun now requests => ?_, ?_⟩
  · rw [Done.shots, requestFor_broadcast hdevs hsent hdst, ← hid, ← hseq]
  · rw [htimers]
    exact resends_timerEnqueue hnone env srcIp retries

theorem requestFor_of_sent_nil {done : Done} (hsent : done.sent = []) :
    done.requestFor d = none := by
  rw [Done.requestFor, hsent]
  rfl

theorem issueRequest_sent_of_devs_nil (hdevs : conf.devs = []) (srcIp destIp : U32)
    (dest : Bool) (retries : U8) :
    (issueRequest conf env srcIp destIp dest retries a).sent = [] := by
  unfold issueRequest
  dsimp only
  generalize routeFind env srcIp (routeFind env destIp a.routes).1 = found
  obtain ⟨routes, found⟩ := found
  cases found with
  | none => rfl
  | some c =>
      dsimp only
      split_ifs
      · rfl
      · simp [EngineConf.broadcast, hdevs]

end Issue

/-! ## The stages -/

namespace Discovery

/-- How many retries are left, the waits so far and the number of RREQs. -/
inductive Stage : U16 → List U32 → ℕ → Prop
  | first : Stage 2 [] 1
  | second : Stage 1 [2 * netTraversalTime] 2
  | third : Stage 0 [3 * netTraversalTime, 2 * netTraversalTime] 3

structure Paced (d : U32) (s : Discovery) (task : RouteTask) : Prop where
  dst : task.dstIp = d
  undropped : s.dropped = none
  stage : ∃ last rest, s.requests = last :: rest ∧
    task.time = last.time + resendDelay (task.retries.truncate 8) ∧
    Stage task.retries s.waits s.requests.length

section Stages

variable {conf : EngineConf} {env : Env} {d : U32} {s : Discovery} {task : RouteTask}

theorem waits_of_next {last : Shot} {rest : List Shot} (hdropped : s.dropped = none)
    (hrequests : s.requests = last :: rest) (now : U32) :
    List.zipWith (· - ·) (now :: s.times) s.times = (now - last.time) :: s.waits := by
  simp [waits, times, hdropped, hrequests]

theorem waits_request {last : Shot} {rest : List Shot} (hdropped : s.dropped = none)
    (hrequests : s.requests = last :: rest) (a : State) (shot : Shot) :
    (⟨a, shot :: s.requests, none⟩ : Discovery).waits = (shot.time - last.time) :: s.waits := by
  rw [← waits_of_next hdropped hrequests]
  simp [waits, times, hdropped]

theorem waits_drop {last : Shot} {rest : List Shot} (hdropped : s.dropped = none)
    (hrequests : s.requests = last :: rest) (a : State) (now : U32) :
    (⟨a, s.requests, some now⟩ : Discovery).waits = (now - last.time) :: s.waits := by
  rw [← waits_of_next hdropped hrequests]
  simp [waits, times, hdropped]

theorem Stage.wait_ok {retries : U16} {waits : List U32} {n : ℕ} (h : Stage retries waits n)
    (hleft : 0 < retries) :
    netTraversalTime ≤ resendDelay (retries.truncate 8) ∧
      ∀ wait ∈ waits.head?, wait ≤ resendDelay (retries.truncate 8) := by
  cases h with
  | first => exact ⟨by decide +kernel, by simp⟩
  | second =>
      refine ⟨by decide +kernel, ?_⟩
      intro wait hwait
      obtain rfl := Option.some.inj hwait
      decide +kernel
  | third => exact absurd hleft (by decide)

theorem Stage.next {retries : U16} {waits : List U32} {n : ℕ} (h : Stage retries waits n)
    (hleft : 0 < retries) :
    Stage (((retries - 1).truncate 8 : U8).zeroExtend 16)
      (resendDelay (retries.truncate 8) :: waits) (n + 1) := by
  cases h with
  | first => exact .second
  | second => exact .third
  | third => exact absurd hleft (by decide)

theorem onSchedule_repeat_iff {a : State} {shot : Shot} (hgood : OnSchedule d s)
    (hpaced : Paced d s task) (hleft : 0 < task.retries) (htime : shot.time = task.time)
    (hgoes : resends d a.timers ≠ []) :
    OnSchedule d ⟨a, shot :: s.requests, none⟩ ↔ shot.rreqId ∉ s.requests.map Shot.rreqId ∧
      ∀ last ∈ s.requests.head?, 0 < ahead shot.srcSeq last.srcSeq := by
  obtain ⟨last, rest, hrequests, hdue, hstage⟩ := hpaced.stage
  have hwaits := waits_request hpaced.undropped hrequests a shot
  have hwait : shot.time - last.time = resendDelay (task.retries.truncate 8) := by
    rw [htime, hdue]
    bv_omega
  rw [hwait] at hwaits
  constructor
  · intro h
    refine ⟨(List.nodup_cons.mp h.fresh).1, ?_⟩
    have hlarger := h.larger
    simp only [hrequests, List.isChain_cons_cons] at hlarger
    simpa [hrequests] using hlarger.1
  · rintro ⟨hfresh, hlarger⟩
    obtain ⟨hlong, hgrows⟩ := hstage.wait_ok hleft
    refine ⟨List.cons_ne_nil _ _, List.nodup_cons.mpr ⟨hfresh, hgood.fresh⟩, ?_, ?_, ?_,
      fun hover => absurd hover hgoes⟩
    · exact List.isChain_cons.mpr ⟨hlarger, hgood.larger⟩
    · rw [hwaits]
      intro wait hwait
      rcases List.mem_cons.mp hwait with rfl | hwait
      · exact hlong
      · exact hgood.apart wait hwait
    · rw [hwaits]
      exact List.isChain_cons.mpr ⟨hgrows, hgood.growing⟩

theorem Paced.next {a : State} {shot : Shot} (hpaced : Paced d s task) (hleft : 0 < task.retries)
    (htime : shot.time = task.time) (hnow : env.now = task.time) (srcIp : U32) :
    Paced d ⟨a, shot :: s.requests, none⟩
      (resendTimer env srcIp d ((task.retries - 1).truncate 8)) := by
  obtain ⟨last, rest, hrequests, hdue, hstage⟩ := hpaced.stage
  have hwait : shot.time - last.time = resendDelay (task.retries.truncate 8) := by
    rw [htime, hdue]
    bv_omega
  have hsame : ((((task.retries - 1).truncate 8 : U8).zeroExtend 16 : U16).truncate 8 : U8) =
      (task.retries - 1).truncate 8 := by
    simp
  refine ⟨rfl, rfl, shot, s.requests, rfl, ?_, ?_⟩
  · rw [htime, ← hnow]
    exact congrArg (fun retries => env.now + resendDelay retries) hsame.symm
  · rw [waits_request hpaced.undropped hrequests a shot, hwait]
    exact hstage.next hleft

theorem not_onSchedule_drop {a : State} (hpaced : Paced d s task) (hleft : ¬0 < task.retries) :
    ¬OnSchedule d ⟨a, s.requests, some task.time⟩ := by
  obtain ⟨last, rest, hrequests, hdue, hstage⟩ := hpaced.stage
  have hzero : task.retries = 0 := by
    have hle := BitVec.not_lt.mp hleft
    bv_omega
  intro h
  have hnow : task.time - last.time = 0 := by
    rw [hdue, hzero, show resendDelay ((0 : U16).truncate 8) = 0 from by decide +kernel]
    bv_omega
  have hapart := h.apart 0 (by
    rw [waits_drop hpaced.undropped hrequests, hnow]
    exact List.mem_cons_self)
  exact absurd hapart (by decide)

theorem not_onSchedule_of_resends_nil (hover : resends d s.state.timers = [])
    (hdropped : s.dropped = none) : ¬OnSchedule d s :=
  fun h => (h.complete hover).2 hdropped

theorem resend_shots {a : State} (hdevs : conf.devs ≠ []) (hdst : task.dstIp = d)
    (hnone : resends d a.timers = []) (hleft : 0 < task.retries)
    (hrenews : renews env task a = true) : ∃ p route,
      (routeFind env task.srcIp (routeFind env task.dstIp a.routes).1).2 = some (p, route) ∧
      (∀ now requests, (pduRequestResendTtl conf env task a).shots d now requests =
        ⟨now, route.rreqId + 1, route.seq + 1⟩ :: requests) ∧
      resends d (pduRequestResendTtl conf env task a).state.timers =
        [resendTimer env task.srcIp d ((task.retries - 1).truncate 8)] := by
  subst hdst
  simp only [renews, Bool.and_eq_true] at hrenews
  rw [pduRequestResendTtl, if_neg (BitVec.not_le.mpr hleft), if_neg (by simp [hrenews.1])]
  exact issueRequest_shots hdevs hrenews.2 hnone false ((task.retries - 1).truncate 8)

theorem onSchedule_fire_iff {timers : List RouteTask} {done : Done}
    (hdevs : conf.devs ≠ []) (hgood : OnSchedule d s) (hpaced : Paced d s task)
    (hnow : env.now = task.time) (hnone : resends d timers = [])
    (hdone : pduRequestResendTtl conf env task { s.state with timers := timers } = done) :
    (OnSchedule d ⟨done.state, done.shots d env.now s.requests,
        if task.retries ≤ 0 then some env.now else s.dropped⟩ ↔
      0 < task.retries ∧ renews env task s.state = true ∧ s.NewNumbers env task) ∧
    ∀ task' ∈ resends d done.state.timers, Paced d ⟨done.state, done.shots d env.now s.requests,
      if task.retries ≤ 0 then some env.now else s.dropped⟩ task' := by
  by_cases hleft : 0 < task.retries
  · rw [if_neg (BitVec.not_le.mpr hleft), hpaced.undropped]
    by_cases hrenews : renews env task s.state = true
    · obtain ⟨p, route, hfound, hshots, hresends⟩ :=
        resend_shots (a := { s.state with timers := timers }) hdevs hpaced.dst hnone hleft hrenews
      rw [hdone] at hshots hresends
      rw [hshots, hresends]
      refine ⟨?_, ?_⟩
      · have hgoes : resends d done.state.timers ≠ [] := by simp [hresends]
        rw [onSchedule_repeat_iff hgood hpaced hleft hnow hgoes]
        constructor
        · intro hnew
          refine ⟨hleft, hrenews, fun q own hown => ?_⟩
          obtain ⟨-, rfl⟩ := Prod.mk.inj (Option.some.inj (hfound.symm.trans hown))
          exact hnew
        · exact fun hnew => hnew.2.2 p route hfound
      · intro task' htask'
        obtain rfl := List.mem_singleton.mp htask'
        exact hpaced.next hleft hnow hnow task.srcIp
    · have hissued := issued_resend conf env task { s.state with timers := timers } hleft
      have hpending := hissued.pending d
      rw [hdone, or_iff_right (resends_eq_nil_iff.mp hnone)] at hpending
      have hover : resends d done.state.timers = [] := by
        rw [resends_eq_nil_iff, hpending]
        exact fun h => hrenews h.1
      refine ⟨iff_of_false ?_ fun h => hrenews h.2.1, ?_⟩
      · exact not_onSchedule_of_resends_nil hover rfl
      · rw [hover]
        exact fun _ htask' => absurd htask' List.not_mem_nil
  · have hzero : task.retries ≤ 0 := BitVec.not_lt.mp hleft
    rw [pduRequestResendTtl, if_pos hzero] at hdone
    subst hdone
    rw [if_pos hzero, hnow, Done.shots, requestFor_of_sent_nil rfl]
    refine ⟨iff_of_false (not_onSchedule_drop hpaced hleft) fun h => hleft h.1, ?_⟩
    change ∀ task' ∈ resends d timers, _
    rw [hnone]
    exact fun _ htask' => absurd htask' List.not_mem_nil

theorem repeats_step {e : DiscoveryEvent} {s' : Discovery} (hdevs : conf.devs ≠ [])
    (hgood : OnSchedule d s) (hpaced : ∀ task ∈ resends d s.state.timers, Paced d s task)
    (hstep : Discovery.step conf d e s = some s') :
    (OnSchedule d s' ↔ Repeats d e s) ∧ ∀ task ∈ resends d s'.state.timers, Paced d s' task := by
  cases e with
  | other a =>
      simp only [Discovery.step] at hstep
      split_ifs at hstep with hsame
      obtain rfl := Option.some.inj hstep
      refine ⟨iff_of_true ?_ trivial, ?_⟩
      · refine ⟨hgood.begun, hgood.fresh, hgood.larger, hgood.apart, hgood.growing, ?_⟩
        intro hover
        apply hgood.complete
        apply List.eq_nil_of_subset_nil
        rw [← hover]
        exact hsame.2
      · intro task htask
        obtain ⟨hdst, hundropped, hstage⟩ := hpaced task (hsame.1 htask)
        exact ⟨hdst, hundropped, hstage⟩
  | fire env =>
      simp only [Discovery.step] at hstep
      cases htimers : resends d s.state.timers with
      | nil => simp [htimers] at hstep
      | cons task rest =>
          simp only [htimers] at hstep
          by_cases hnow : env.now = task.time
          · rw [if_pos hnow] at hstep
            obtain rfl := Option.some.inj hstep
            have hpaced' := hpaced task (by rw [htimers]; exact List.mem_cons_self)
            have hnone : resends d (delete RouteTask.key (taskResendRreq, d) s.state.timers) = [] :=
              pending_delete_self
            have hfire := onSchedule_fire_iff hdevs hgood hpaced' hnow hnone rfl
            refine ⟨hfire.1.trans ?_, hfire.2⟩
            simp [Repeats, htimers]
          · rw [if_neg hnow] at hstep
            cases hstep

variable {a : State}

theorem create_of_starts (h : Starts conf env d a) :
    (∃ rreqId srcSeq, (create conf env d a).requests = [⟨env.now, rreqId, srcSeq⟩]) ∧
      resends d (create conf env d a).state.timers =
        [resendTimer env conf.myIp d (rreqRetries.truncate 8)] := by
  obtain ⟨hnew, hdevs, hcreates⟩ := h
  simp only [creates, Bool.and_eq_true] at hcreates
  have hissue : pduRequestCreate conf env d a =
      issueRequest conf env conf.myIp d true (rreqRetries.truncate 8) a := by
    have hfind := timerFind_isSome_iff.not.mpr (not_not_intro hnew)
    rw [pduRequestCreate, if_neg hfind, if_neg (by simp [hcreates.1])]
  obtain ⟨p, route, -, hshots, hresends⟩ :=
    issueRequest_shots hdevs hcreates.2 hnew true (rreqRetries.truncate 8)
  simp only [create, hissue]
  exact ⟨⟨route.rreqId + 1, route.seq + 1, hshots env.now []⟩, hresends⟩

theorem waits_of_singleton {shot : Shot} (hrequests : s.requests = [shot])
    (hdropped : s.dropped = none) : s.waits = [] := by
  rw [waits, times, hrequests, hdropped]
  rfl

theorem onSchedule_create_of_starts (h : Starts conf env d a) :
    OnSchedule d (create conf env d a) := by
  obtain ⟨⟨rreqId, srcSeq, hrequests⟩, hresends⟩ := create_of_starts h
  have hwaits := waits_of_singleton hrequests rfl
  exact {
    begun := by simp [hrequests]
    fresh := by simp [hrequests]
    larger := by simp [hrequests]
    apart := by simp [hwaits]
    growing := by simp [hwaits]
    complete := by simp [hresends] }

theorem paced_create (h : Starts conf env d a) :
    ∀ task ∈ resends d (create conf env d a).state.timers, Paced d (create conf env d a) task := by
  obtain ⟨⟨rreqId, srcSeq, hrequests⟩, hresends⟩ := create_of_starts h
  intro task htask
  rw [hresends] at htask
  obtain rfl := List.mem_singleton.mp htask
  refine ⟨rfl, rfl, _, [], hrequests, rfl, ?_⟩
  rw [waits_of_singleton hrequests rfl, hrequests]
  exact .first

theorem not_onSchedule_of_sent_nil (hsent : (pduRequestCreate conf env d a).sent = []) :
    ¬OnSchedule d (create conf env d a) := by
  intro h
  apply h.begun
  simp [create, Done.shots, requestFor_of_sent_nil hsent]

theorem pduRequestCreate_sent_of_devs_nil (hdevs : conf.devs = []) :
    (pduRequestCreate conf env d a).sent = [] := by
  unfold pduRequestCreate
  split_ifs
  · rfl
  · rfl
  · exact issueRequest_sent_of_devs_nil hdevs _ _ _ _

theorem onSchedule_create_iff :
    OnSchedule d (create conf env d a) ↔ Starts conf env d a := by
  refine ⟨fun h => ?_, onSchedule_create_of_starts⟩
  have hnew : resends d a.timers = [] := by
    by_contra hrunning
    refine not_onSchedule_of_sent_nil ?_ h
    rw [pduRequestCreate, if_pos (timerFind_isSome_iff.mpr hrunning)]
  have hdevs : conf.devs ≠ [] := by
    intro hnone
    exact not_onSchedule_of_sent_nil (pduRequestCreate_sent_of_devs_nil hnone) h
  have hpending := (issued_pduRequestCreate conf env d a).pending d
  rw [or_iff_right (resends_eq_nil_iff.mp hnew)] at hpending
  refine ⟨hnew, hdevs, ?_⟩
  -- A start that fails leaves no timer, and so no way to the end.
  by_contra hcreates
  have hover : resends d (create conf env d a).state.timers = [] := by
    rw [resends_eq_nil_iff]
    exact fun hresend => hcreates (hpending.mp hresend).1
  exact not_onSchedule_of_resends_nil hover rfl h

theorem repeats_undropped {e : DiscoveryEvent} {s' : Discovery} (hs : s.dropped = none)
    (hrepeats : Repeats d e s) (hstep : Discovery.step conf d e s = some s') :
    s'.dropped = none := by
  cases e with
  | other a =>
      simp only [Discovery.step] at hstep
      split_ifs at hstep
      obtain rfl := Option.some.inj hstep
      exact hs
  | fire env =>
      simp only [Discovery.step] at hstep
      cases htimers : resends d s.state.timers with
      | nil => simp [htimers] at hstep
      | cons task rest =>
          have hleft : ¬task.retries ≤ 0 := by
            have htask := hrepeats task (by rw [htimers]; rfl)
            exact BitVec.not_le.mpr htask.1
          simp only [htimers, if_neg hleft] at hstep
          split_ifs at hstep
          obtain rfl := Option.some.inj hstep
          exact hs

end Stages

end Discovery

/-- A discovery is on schedule throughout exactly when it is started and each of its timers
finds retries left, memory and new numbers. It has to stop short of its end: one that gives its
packets up was not on schedule. -/
theorem discovery_schedule_iff (conf : EngineConf) (env : Env) (d : U32) (a : State)
    (events : List DiscoveryEvent) :
    ((∀ s, Machine.Visits (Discovery.step conf d) (.create conf env d a) events s →
        s.OnSchedule d) ↔
      Discovery.Starts conf env d a ∧
        Throughout (Discovery.step conf d) (Discovery.Repeats d) events (.create conf env d a)) ∧
    ∀ s, Machine.Visits (Discovery.step conf d) (.create conf env d a) events s →
      s.dropped ≠ none →
        ∃ s', Machine.Visits (Discovery.step conf d) (.create conf env d a) events s' ∧
          ¬s'.OnSchedule d := by
  have hiff : (∀ s, Machine.Visits (Discovery.step conf d) (.create conf env d a) events s →
      s.OnSchedule d) ↔ Discovery.Starts conf env d a ∧
        Throughout (Discovery.step conf d) (Discovery.Repeats d) events (.create conf env d a) := by
    by_cases hstarts : Discovery.Starts conf env d a
    · rw [and_iff_right hstarts]
      exact visits_iff
        (A := fun s : Discovery => ∀ task ∈ resends d s.state.timers, s.Paced d task)
        (fun hgood haux hstep => Discovery.repeats_step hstarts.2.1 hgood haux hstep) events
        (Discovery.onSchedule_create_of_starts hstarts) (Discovery.paced_create hstarts)
    · refine iff_of_false (fun h => ?_) fun h => hstarts h.1
      exact hstarts (Discovery.onSchedule_create_iff.mp (h _ .here))
  refine ⟨hiff, ?_⟩
  intro s hvisits hdropped
  by_contra hnone
  push Not at hnone
  obtain ⟨-, hrepeats⟩ := hiff.mp hnone
  have hstill := hvisits.invariant_of_throughout (P := fun s : Discovery => s.dropped = none)
    (fun hs hc hstep => Discovery.repeats_undropped hs hc hstep) hrepeats rfl
  exact hdropped hstill

/-- The timers of a discovery for node 9 that is started at 100 ms. -/
def lanTimeouts : List DiscoveryEvent :=
  [.fire (.plenty 1700), .fire (.plenty 4100), .fire (.plenty 4100)]

/-- The third RREQ is not waited for. -/
theorem third_request_unwaited : ∃ s, Machine.Visits (Discovery.step lanStart.1 0x0a000009)
    (.create lanStart.1 (.plenty 100) 0x0a000009 lanStart.2) lanTimeouts s ∧
    s.waits = [0, 2400, 1600] ∧ ¬s.OnSchedule 0x0a000009 := by
  obtain ⟨s, hvisits, hwaits⟩ : ∃ s, Machine.Visits (Discovery.step lanStart.1 0x0a000009)
      (.create lanStart.1 (.plenty 100) 0x0a000009 lanStart.2) lanTimeouts s ∧
      s.waits = [0, 2400, 1600] := exists_visits (by decide +kernel)
  refine ⟨s, hvisits, hwaits, fun h => ?_⟩
  have hapart := h.apart 0 (by simp [hwaits])
  exact absurd hapart (by decide)

/-! ## The timer of the module -/

section Timer

variable {conf : EngineConf} {env : Env} {d : U32} {task : RouteTask}

variable (conf env task) in
theorem pduRequestResendTtl_tasks (a : State) (tasks : List RouteTask) :
    pduRequestResendTtl conf env task { a with tasks := tasks } =
      { pduRequestResendTtl conf env task a with
        state := { (pduRequestResendTtl conf env task a).state with tasks := tasks } } := by
  unfold pduRequestResendTtl
  split_ifs
  · rfl
  · rfl
  · simp only [issueRequest]
    split
    · rfl
    · split_ifs
      · rfl
      · rfl

/-- Where the timer of the discovery is the only one due and there is no task before it,
`__aodv_timer_queue_signal` and `aodv_kthread` do what `Discovery.step` says. -/
theorem signal_work_eq_resend {a : State} (htasks : a.tasks = [])
    (hone : resends d a.timers = [task])
    (hdue : ∀ t ∈ a.timers,
      timeBeforeEq t.time env.now = true ↔ t.key = (taskResendRreq, d)) :
    ((step conf env a .signal).bind fun signalled => step conf env signalled.state .work) =
      some (pduRequestResendTtl conf env task
        { a with timers := delete RouteTask.key (taskResendRreq, d) a.timers }) := by
  have hkeys : ∀ t ∈ a.timers,
      timeBeforeEq t.time env.now = decide (t.key = (taskResendRreq, d)) := by
    intro t ht
    rw [Bool.eq_iff_iff, hdue t ht, decide_eq_true_iff]
  have hhead : a.timers.filter (fun t => timeBeforeEq t.time env.now) = [task] := by
    rw [← hone]
    exact List.filter_congr hkeys
  have hrest : a.timers.filter (fun t => !timeBeforeEq t.time env.now) =
      delete RouteTask.key (taskResendRreq, d) a.timers := by
    apply List.filter_congr
    intro t ht
    rw [hkeys t ht, decide_not]
  have htype : task.type = taskResendRreq := by
    have hkey := (List.mem_filter.mp (hone ▸ List.mem_singleton_self task)).2
    exact congrArg Prod.fst (of_decide_eq_true hkey)
  have hsignal : timerQueueSignal env a = { a with
      timers := delete RouteTask.key (taskResendRreq, d) a.timers, tasks := [task] } := by
    rw [timerQueueSignal, hhead, hrest, htasks]
    rfl
  have hhandle (b : State) :
      handleTask conf env task b = some (pduRequestResendTtl conf env task b) := by
    rw [handleTask, htype]
    rfl
  obtain ⟨b, hb⟩ : ∃ b : State,
      b = { a with timers := delete RouteTask.key (taskResendRreq, d) a.timers } := ⟨_, rfl⟩
  have hidle : { b with tasks := [] } = b := by rw [hb, ← htasks]
  have hwork : kthread conf env { b with tasks := [task] } =
      some (pduRequestResendTtl conf env task { b with tasks := [] }) := by
    rw [pduRequestResendTtl_tasks conf env task b []]
    simp only [kthread, hhandle, pduRequestResendTtl_tasks conf env task b [task]]
    rfl
  rw [← hb, ← hidle, ← hwork, hb]
  exact congrArg (kthread conf env) hsignal

end Timer

end Aodv
end WirelessMesh
