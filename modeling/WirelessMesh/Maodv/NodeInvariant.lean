import WirelessMesh.Maodv.NodeSteps

/-!
# The invariant of one node

Beside its routes a node keeps its neighbours, timers and tasks in order: a
neighbour is another node, a repeated request asks for another node on behalf of
this one, and every message in the task queue has been heard.
-/

namespace WirelessMesh
namespace Maodv

open Routes

variable {conf : EngineConf} {env : Env} {own : List U32} {heard : Frame → Prop}
  {e : RouteEngine} {done : Done} {task : RouteTask}

/-- A timer carries no message, and repeats only the node's own requests. -/
structure TimerOk (own : List U32) (task : RouteTask) : Prop where
  notRreq : task.type ≠ taskRreq
  notRrep : task.type ≠ taskRrep
  notRerr : task.type ≠ taskRerr
  resend : task.type = taskResendRreq → task.srcIp ∈ own ∧ task.dstIp ∉ own

def TaskOk (own : List U32) (heard : Frame → Prop) (task : RouteTask) : Prop :=
  TimerOk own task ∨ ∃ f, heard f ∧ isRouteMessage f.pdu = true ∧ task.srcIp = f.srcIp ∧
    task.data = f.pdu ∧ task.type = pduType f.pdu

structure NodeOk (own : List U32) (heard : Frame → Prop) (e : RouteEngine) : Prop where
  home : Home own e.myRoute e.routes
  neighs : ∀ c ∈ e.neighs.cells, c.2.ip ∉ own
  timers : ∀ task ∈ e.timers, TimerOk own task
  tasks : ∀ task ∈ e.tasks, TaskOk own heard task

theorem NodeOk.mono {heard' : Frame → Prop} (h : NodeOk own heard e)
    (hle : ∀ f, heard f → heard' f) : NodeOk own heard' e where
  home := h.home
  neighs := h.neighs
  timers := h.timers
  tasks := by
    intro task ht
    rcases h.tasks task ht with hok | ⟨f, hf, hrest⟩
    · exact .inl hok
    · exact .inr ⟨f, hle f hf, hrest⟩

structure HeardOk (B : Base own) (f : Frame) : Prop where
  offer : ∀ a ∈ advert f.pdu, B.offer a.1 a.2 f.srcIp ∧ a.2.toNat < 2 ^ 31
  request : ∀ request, f.pdu = .request request → request.srcIp ≠ request.dstIp
  hello : ∀ reply, f.pdu = .reply reply → reply.srcIp = reply.dstIp → reply.dstIp ∉ own

/-- A step of a node: the invariant holds again, every entry has a fate, and what
was sent is backed. -/
structure Progress (heard : Frame → Prop) (B : Base own) (done : Done) : Prop where
  ok : NodeOk own heard done.engine
  fate : ∀ c ∈ done.engine.routes.cells, c.2.ip ∉ own → Fate B c.2
  sent : ∀ f ∈ done.sent, FrameOk own done.engine.routes f

section Steps

variable {B : Base own}

theorem TimerOk.ofType {type : U32} (ht : task.type = type) (h₁ : type ≠ taskRreq)
    (h₂ : type ≠ taskRrep) (h₃ : type ≠ taskRerr) (h₄ : type ≠ taskResendRreq) :
    TimerOk own task := by
  subst ht
  exact ⟨h₁, h₂, h₃, fun h => absurd h h₄⟩

theorem TaskOk.ofRequest (h : TaskOk own heard task) {request : AodvPduRequest}
    (hty : task.type = taskRreq) (hdata : task.data = .request request) :
    ∃ f, heard f ∧ task.srcIp = f.srcIp ∧ f.pdu = .request request := by
  rcases h with hok | ⟨f, hf, -, hsrc, hpdu, -⟩
  · exact absurd hty hok.notRreq
  · exact ⟨f, hf, hsrc, hpdu.symm.trans hdata⟩

theorem TaskOk.ofReply (h : TaskOk own heard task) {reply : AodvPduReply}
    (hty : task.type = taskRrep) (hdata : task.data = .reply reply) :
    ∃ f, heard f ∧ task.srcIp = f.srcIp ∧ f.pdu = .reply reply := by
  rcases h with hok | ⟨f, hf, -, hsrc, hpdu, -⟩
  · exact absurd hty hok.notRrep
  · exact ⟨f, hf, hsrc, hpdu.symm.trans hdata⟩

theorem TaskOk.notError (h : TaskOk own heard task) {errpdu : AodvPduError}
    (hty : task.type = taskRerr) (hdata : task.data = .error errpdu) : False := by
  rcases h with hok | ⟨f, -, hmsg, -, hpdu, -⟩
  · exact hok.notRerr hty
  · simp [← hpdu, hdata, isRouteMessage] at hmsg

theorem TaskOk.ofResend (h : TaskOk own heard task) (hty : task.type = taskResendRreq) :
    task.srcIp ∈ own ∧ task.dstIp ∉ own := by
  rcases h with hok | ⟨f, -, hmsg, -, -, hft⟩
  · exact hok.resend hty
  · rw [hty] at hft
    cases hp : f.pdu <;> simp [hp, isRouteMessage] at hmsg <;>
      simp [hp, pduType, taskResendRreq, taskRreq, taskRrep] at hft

/-- The conditions on a message are those of the handlers, once `below` bounds the
peaks. -/
theorem FreshRequest.fits {below : U32 → ℕ → Prop} {packet : RouteTask}
    {request : AodvPduRequest} (hfresh : FreshRequest below conf env packet request e)
    (hok : NodeOk own heard e) (he : e.routes = B.routes)
    (hbelow : ∀ d b, d ∉ own → below d b → B.peak d ≤ b)
    (hpass : RequestPasses env packet request e) : RequestFits conf env e.myRoute B request := by
  obtain ⟨hsrc, hgate, hmask⟩ := hfresh hpass
  have hnot : ∀ a, firstRoute e.routes a = none → a ∉ own :=
    fun a hnone ha => hok.home.firstRoute_ne_none ha hnone
  constructor
  · rw [← he]
    exact fun hnone => (hsrc hnone).1
  · rw [← he]
    exact fun hnone => hbelow _ _ (hnot _ hnone) (hsrc hnone).2
  · rw [← he]
    exact fun hout hg => (hgate hout hg).1
  · rw [← he]
    intro hout hg hnone r hr
    exact hbelow _ _ (hnot _ hnone) ((hgate hout hg).2 hnone r (HeapList.get?_eq_some.mpr hr))
  · rw [← he]
    exact hmask

theorem Progress.ofRoutes (hok : NodeOk own heard e) (hmy : done.engine.myRoute = e.myRoute)
    (hS : Standing e.myRoute B done.engine.routes)
    (hneighs : ∀ c ∈ done.engine.neighs.cells, c.2.ip ∉ own)
    (htimers : ∀ task ∈ done.engine.timers, task ∈ e.timers ∨ TimerOk own task)
    (htasks : done.engine.tasks = e.tasks)
    (hsent : ∀ f ∈ done.sent, FrameOk own done.engine.routes f) : Progress heard B done where
  ok :=
    { home := by rw [hmy]; exact hS.toHome
      neighs := hneighs
      timers := by
        intro task ht
        rcases htimers task ht with ht | ht
        · exact hok.timers task ht
        · exact ht
      tasks := by rw [htasks]; exact hok.tasks }
  fate := hS.fate
  sent := hsent

theorem Progress.worn (hok : NodeOk own heard e) (he : e.routes = B.routes) {t : RouteTable}
    (hw : WornTable env e.routes t) (heng : done.engine = { e with routes := t })
    (hsent : done.sent = []) : Progress heard B done := by
  have hhome := hok.home
  rw [he] at hw hhome
  refine .ofRoutes hok (by rw [heng]) ?_ (by rw [heng]; exact hok.neighs)
    (by rw [heng]; exact fun _ ht => .inl ht) (by rw [heng]) (by simp [hsent])
  rw [heng]
  exact (Standing.refl hhome).worn hw

theorem Progress.nothing (hok : NodeOk own heard e) (he : e.routes = B.routes)
    (heng : done.engine = e) (hsent : done.sent = []) : Progress heard B done := by
  have hw : WornTable (.plenty 0) e.routes e.routes := (AgedTable.refl e.routes).worn
  exact .worn hok he hw heng hsent

theorem Progress.issue (hown : conf.addrs = own) (hok : NodeOk own heard e) {e' : RouteEngine}
    (hw : WornTable env B.routes e'.routes) (hhome : Home own e.myRoute B.routes)
    (he' : e' = { e with routes := e'.routes }) {srcIp destIp : U32} {t : RouteTable}
    (tr : IssueTrace conf env srcIp destIp e' done t) (hsrc : srcIp ∈ own) (hdst : destIp ∉ own) :
    Progress heard B done := by
  have hneighs : e'.neighs = e.neighs := by rw [he']
  have htimers : e'.timers = e.timers := by rw [he']
  obtain ⟨hS, hsent⟩ := Standing.issue hown hhome hw tr hsrc hdst
  refine .ofRoutes hok ?_ hS ?_ ?_ ?_ hsent
  · rw [tr.myRoute, he']
  · rw [tr.neighs, hneighs]
    exact hok.neighs
  · intro task ht
    rcases tr.timers task ht with ht | ⟨hty, hs, hd⟩
    · exact .inl (htimers ▸ ht)
    · refine .inr ⟨?_, ?_, ?_, fun _ => ⟨hs ▸ hsrc, hd ▸ hdst⟩⟩ <;> rw [hty] <;> decide
  · rw [tr.tasks, he']

theorem timerInsert_ok {type ip delay : U32} {timers : List RouteTask} (h₁ : type ≠ taskRreq)
    (h₂ : type ≠ taskRrep) (h₃ : type ≠ taskRerr) (h₄ : type ≠ taskResendRreq) :
    ∀ task ∈ (timerInsert env type ip delay timers).1, task ∈ timers ∨ TimerOk own task := by
  intro task ht
  rcases mem_timerInsert ht with ht | ⟨hty, -⟩
  · exact .inl ht
  · exact .inr (.ofType hty h₁ h₂ h₃ h₄)

theorem Progress.rxRequest {below : U32 → ℕ → Prop} (hown : conf.addrs = own)
    (hok : NodeOk own heard e) (he : e.routes = B.routes) {f : Frame} (hfok : HeardOk B f)
    (hbelow : ∀ d b, d ∉ own → below d b → B.peak d ≤ b) {request : AodvPduRequest}
    (hsrc : task.srcIp = f.srcIp) (hpdu : f.pdu = .request request)
    (hfresh : FreshRequest below conf env task request e)
    (h : rxRequest conf env task request e = some done) : Progress heard B done := by
  have hhome : Home own e.myRoute B.routes := he ▸ hok.home
  obtain ⟨hoffer, hseq⟩ := hfok.offer (request.srcIp, request.srcSeq) (by simp [hpdu, advert])
  obtain ⟨hS, hsent⟩ := Standing.rxRequest hown hhome he rfl h (hsrc ▸ hoffer) hseq
    (hfok.request request hpdu) (hfresh.fits hok he hbelow)
  have heng : ∃ floods,
      done.engine = { e with routes := done.engine.routes, floods := floods } := by
    obtain ⟨-, -, t, -, heng, -⟩ | ⟨t₁, t₂, t₃, t₄, b, tr⟩ := rxRequest_cases h
    · exact ⟨e.floods, by rw [heng]⟩
    · exact ⟨_, tr.engine⟩
  obtain ⟨floods, heng⟩ := heng
  refine .ofRoutes hok ?_ hS ?_ ?_ ?_ hsent
  · rw [heng]
  · rw [heng]; exact hok.neighs
  · rw [heng]; exact fun _ ht => .inl ht
  · rw [heng]

/-- A HELLO of a node that is not this one, under a number that is not behind. -/
theorem Progress.rxHello (hok : NodeOk own heard e) (he : e.routes = B.routes)
    {reply : AodvPduReply} (hseq : reply.dstSeq.toNat < 2 ^ 31) (hdst : reply.dstIp ∉ own)
    (hpeak : neighFind reply.dstIp e.neighs ≠ none ∨ env.mem .neigh = true →
      B.peak reply.dstIp ≤ reply.dstSeq.toNat + 1)
    (h : rxHello conf env task reply e = some done) : Progress heard B done := by
  have hhome : Home own e.myRoute B.routes := he ▸ hok.home
  obtain ⟨-, -, rfl⟩ | ⟨t, dev, tr⟩ := rxHello_cases h
  · exact .nothing hok he rfl rfl
  · have hS := Standing.rxHello hhome he tr hseq (hpeak tr.recorded)
    refine .ofRoutes hok tr.myRoute hS ?_ ?_ tr.tasks ?_
    · rintro ⟨p, n⟩ hn
      rcases tr.neighs p n hn with hip | ⟨m, hm, hip⟩
      · simpa [hip] using hdst
      · simpa [hip] using hok.neighs _ hm
    · intro task ht
      rcases tr.timers task ht with ht | hty
      · exact .inl ht
      · exact .inr (.ofType hty (by decide) (by decide) (by decide) (by decide))
    · simp [tr.sent]

theorem Progress.rxReply {below : U32 → ℕ → Prop} (hown : conf.addrs = own)
    (hok : NodeOk own heard e) (he : e.routes = B.routes) {f : Frame} (hfok : HeardOk B f)
    (hbelow : ∀ d b, d ∉ own → below d b → B.peak d ≤ b) {reply : AodvPduReply}
    (hsrc : task.srcIp = f.srcIp) (hpdu : f.pdu = .reply reply)
    (hfresh : FreshReply below env task reply e)
    (h : rxReply conf env task reply e = some done) : Progress heard B done := by
  have hhome : Home own e.myRoute B.routes := he ▸ hok.home
  obtain ⟨hoffer, hseq⟩ := hfok.offer (reply.dstIp, reply.dstSeq) (by simp [hpdu, advert])
  obtain ⟨hsame, d, hd, rfl⟩ | ⟨-, -, rfl⟩ | ⟨t₁, t₂, tr⟩ := rxReply_cases h
  · have hdst := hfok.hello reply hpdu hsame
    have hprog := Progress.rxHello hok he hseq hdst
      (fun hrec => hbelow _ _ hdst (hfresh.1 hsame hrec)) hd
    exact { hprog with sent := by simp }
  · exact .nothing hok he rfl rfl
  · have hnew := hfresh.2 tr.notHello tr.heard
    rw [he] at hnew
    have hnot : firstRoute B.routes reply.dstIp = none → reply.dstIp ∉ own :=
      fun hnone ha => hhome.firstRoute_ne_none ha hnone
    obtain ⟨hS, hsent⟩ := Standing.rxReply hown hhome he tr (hsrc ▸ hoffer) hseq
      (fun hnone => (hnew hnone).1) (fun hnone => hbelow _ _ (hnot hnone) (hnew hnone).2)
    refine .ofRoutes hok ?_ hS ?_ ?_ ?_ hsent
    · rw [tr.engine]
    · rw [tr.engine]; exact hok.neighs
    · rw [tr.engine]; exact fun _ ht => .inl (mem_timerDelete ht)
    · rw [tr.engine]

theorem Progress.flush (hok : NodeOk own heard e) (he : e.routes = B.routes)
    {timers : List RouteTask} {floods : List RouteFlood}
    (htimers : ∀ task ∈ timers, task ∈ e.timers ∨ TimerOk own task)
    (heng : done.engine =
      { e with routes := routeFlush env e.routes, timers := timers, floods := floods })
    (hsent : done.sent = []) : Progress heard B done := by
  have hhome : Home own e.myRoute B.routes := he ▸ hok.home
  have hS : Standing e.myRoute B (routeFlush env e.routes) := he ▸ Standing.flush hhome
  refine .ofRoutes hok ?_ ?_ ?_ ?_ ?_ (by simp [hsent])
  · rw [heng]
  · rw [heng]; exact hS
  · rw [heng]; exact hok.neighs
  · rw [heng]; exact htimers
  · rw [heng]

theorem Progress.sendHello (hown : conf.addrs = own) (hok : NodeOk own heard e)
    (he : e.routes = B.routes) (h : sendHello conf env e = some done) : Progress heard B done := by
  have hhome : Home own e.myRoute B.routes := he ▸ hok.home
  obtain rfl | ⟨my, hmy, heng, hsent⟩ := sendHello_cases h
  · exact .nothing hok he rfl rfl
  · have hmyown : my.ip ∈ own := by
      obtain ⟨r, hr, hin⟩ := hok.home.mine
      rwa [HeapList.eq_of_mem hmy hr]
    refine .ofRoutes hok ?_ ?_ ?_ ?_ ?_ ?_
    · rw [heng]
    · rw [heng]
      exact he ▸ Standing.refl hhome
    · rw [heng]; exact hok.neighs
    · rw [heng]
      exact timerInsert_ok (by decide) (by decide) (by decide) (by decide)
    · rw [heng]
    · intro f hf
      obtain ⟨reply, hf, -, hd, -⟩ := hsent f hf
      obtain ⟨hpdu, hsrc⟩ := EngineConf.mem_broadcast hf
      exact .ofReply (hown ▸ hsrc) hpdu (.inl (hd ▸ hmyown)) fun _ => hd ▸ hmyown

theorem Progress.neighDelete (hown : conf.addrs = own) (hok : NodeOk own heard e)
    (he : e.routes = B.routes) {ip : U32} (h : neighDelete conf env ip e = some done) :
    Progress heard B done := by
  have hhome : Home own e.myRoute B.routes := he ▸ hok.home
  obtain rfl | ⟨t, tr⟩ := neighDelete_cases h
  · exact .nothing hok he rfl rfl
  · obtain ⟨p, n, hn, hip⟩ := tr.known
    have hnot : ip ∉ own := hip ▸ hok.neighs _ hn
    obtain ⟨hS, hsent⟩ := Standing.neighDelete hown hhome he tr hnot
    exact .ofRoutes hok tr.myRoute hS (fun c hc => hok.neighs c (tr.neighs c hc))
      (fun task ht => .inl (tr.timers task ht)) tr.tasks hsent

theorem Progress.handleTask {below : U32 → ℕ → Prop} (hown : conf.addrs = own)
    (hok : NodeOk own heard e) (he : e.routes = B.routes) (hheard : ∀ f, heard f → HeardOk B f)
    (hbelow : ∀ d b, d ∉ own → below d b → B.peak d ≤ b) (htask : TaskOk own heard task)
    (hfresh : FreshTask below conf env task e) (h : handleTask conf env task e = some done) :
    Progress heard B done := by
  cases handleTask_cases h with
  | request request hty hdata h =>
      obtain ⟨f, hf, hsrc, hpdu⟩ := htask.ofRequest hty hdata
      rw [FreshTask, hdata] at hfresh
      exact .rxRequest hown hok he (hheard f hf) hbelow hsrc hpdu hfresh h
  | reply reply hty hdata h =>
      obtain ⟨f, hf, hsrc, hpdu⟩ := htask.ofReply hty hdata
      rw [FreshTask, hdata] at hfresh
      exact .rxReply hown hok he (hheard f hf) hbelow hsrc hpdu hfresh h
  | error errpdu hty hdata _ => exact (htask.notError hty hdata).elim
  | cleanup _ heng hsent =>
      refine .flush hok he ?_ heng hsent
      exact timerInsert_ok (by decide) (by decide) (by decide) (by decide)
  | hello _ h => exact .sendHello hown hok he h
  | neighbor _ h => exact .neighDelete hown hok he h
  | routeCleanup _ heng hsent => exact .flush hok he (fun _ ht => .inl ht) heng hsent
  | resend hty h =>
      subst h
      obtain ⟨hsrc, hdst⟩ := htask.ofResend hty
      obtain ⟨heng, hsent⟩ | ⟨t, tr⟩ := resendRequest_cases conf env task e
      · exact .nothing hok he heng hsent
      · exact .issue hown hok (he ▸ (AgedTable.refl e.routes).worn) (he ▸ hok.home) rfl tr hsrc hdst
  | nothing heng hsent => exact .nothing hok he heng hsent

theorem Progress.kthread {below : U32 → ℕ → Prop} (hown : conf.addrs = own)
    (hok : NodeOk own heard e) (he : e.routes = B.routes) (hheard : ∀ f, heard f → HeardOk B f)
    (hbelow : ∀ d b, d ∉ own → below d b → B.peak d ≤ b)
    (hfresh : ∀ task ∈ e.tasks.head?, FreshTask below conf env task e)
    (h : kthread conf env e = some done) : Progress heard B done := by
  unfold Maodv.kthread at h
  cases htasks : e.tasks with
  | nil =>
      obtain rfl := by simpa [htasks] using h
      exact .nothing hok he rfl rfl
  | cons task rest =>
      simp only [htasks] at h
      obtain ⟨d, hd, h⟩ := Option.bind_eq_some_iff.mp h
      obtain rfl := Option.some.inj h
      have htask : TaskOk own heard task := hok.tasks task (by simp [htasks])
      have hp :=
        Progress.handleTask hown hok he hheard hbelow htask (hfresh task (by simp [htasks])) hd
      exact
        { ok :=
            { home := hp.ok.home
              neighs := hp.ok.neighs
              timers := hp.ok.timers
              tasks := fun task ht => hp.ok.tasks task (List.mem_of_mem_tail ht) }
          fate := hp.fate
          sent := hp.sent }

/-- An outgoing packet asks only for addresses that are not the node's own: those
have a valid entry. -/
theorem Progress.output (hown : conf.addrs = own) (hok : NodeOk own heard e)
    (he : e.routes = B.routes) (daddr : U32) :
    Progress heard B (ipPacketOutput conf env daddr e).2 := by
  obtain ⟨t, ha, hcases⟩ := ipPacketOutput_cases conf env daddr e
  have hw := ha.worn
  rcases hcases with ⟨p, hd⟩ | hd | ⟨hinvalid, hd⟩
  · rw [hd]
    generalize env.now + activeRouteTimeout = deadline
    have hhome : Home own e.myRoute B.routes := he ▸ hok.home
    have hS := (Standing.refl hhome).worn (he ▸ hw)
    have hmod : Standing e.myRoute B (t.modify p fun r => { r with lifetime := deadline }) := by
      refine hS.modify (fun _ => rfl) (fun _ => rfl) (fun _ hv => hv) ?_
      intro r hr hrown
      exact (hS.fate _ hr hrown).congr rfl rfl rfl rfl
    exact .ofRoutes hok rfl hmod hok.neighs (fun _ ht => .inl ht) rfl (by simp)
  · rw [hd]
    exact .worn hok he hw rfl rfl
  · have hhome : Home own e.myRoute B.routes := he ▸ hok.home
    have hS := (Standing.refl hhome).worn (he ▸ hw)
    have hdst : daddr ∉ own := by
      intro hin
      obtain ⟨p, r, hf, hv⟩ := hS.toHome.firstRoute_valid hin
      simp [hinvalid p r hf] at hv
    have hsrc : conf.myIp ∈ own := hown ▸ List.mem_cons_self
    rw [hd]
    obtain ⟨heng, hsent⟩ | ⟨t', tr⟩ := sendRequest_cases conf env daddr { e with routes := t }
    · exact .worn hok he hw heng hsent
    · exact .issue hown hok (he ▸ hw) hhome rfl tr hsrc hdst

theorem Progress.input (hok : NodeOk own heard e) (he : e.routes = B.routes) {f : Frame}
    (hf : heard f) (hmsg : isRouteMessage f.pdu = true) (dev : RouteDev) :
    Progress heard B ⟨0, ipPacketInput env dev f e, []⟩ := by
  unfold ipPacketInput
  split_ifs
  · have hhome : Home own e.myRoute B.routes := he ▸ hok.home
    have hS : Standing e.myRoute B e.routes := he ▸ Standing.refl hhome
    refine ⟨⟨hok.home, hok.neighs, hok.timers, ?_⟩, hS.fate, by simp⟩
    intro task ht
    rcases List.mem_append.mp ht with ht | ht
    · exact hok.tasks task ht
    · obtain rfl := List.mem_singleton.mp ht
      exact .inr ⟨f, hf, hmsg, rfl, rfl, rfl⟩
  · exact .nothing hok he rfl rfl

theorem Progress.signal (hok : NodeOk own heard e) (he : e.routes = B.routes) :
    Progress heard B ⟨0, timerQueueSignal env e, []⟩ := by
  have hhome : Home own e.myRoute B.routes := he ▸ hok.home
  have hS : Standing e.myRoute B e.routes := he ▸ Standing.refl hhome
  refine ⟨⟨hok.home, hok.neighs, ?_, ?_⟩, hS.fate, by simp⟩
  · intro task ht
    exact hok.timers task (List.mem_of_mem_filter ht)
  · intro task ht
    rcases List.mem_append.mp ht with ht | ht
    · exact hok.tasks task ht
    · exact .inl (hok.timers task (List.mem_of_mem_filter ht))

end Steps

/-! ## Starting up -/

/-- What loading the module and registering devices leaves behind. -/
structure BootOk (s : EngineConf × RouteEngine) : Prop where
  self : ∀ c ∈ s.2.routes.cells, c.2.selfRoute = true ∧ c.2.routeValid = true ∧
    c.2.ip ∈ s.1.addrs
  here : ∀ a ∈ s.1.addrs, ∃ c ∈ s.2.routes.cells, c.2.ip = a
  mine : ∃ r, (s.2.myRoute, r) ∈ s.2.routes.cells
  neighs : s.2.neighs.cells = []
  timers : ∀ task ∈ s.2.timers, task.type = taskHello ∨ task.type = taskCleanup
  tasks : s.2.tasks = []

theorem bootOk_engineInit (env : Env) (supportGateway : Bool) (localIp localMask : U32) :
    BootOk (engineInit env supportGateway localIp localMask) where
  self := by simp [engineInit, routeNew, EngineConf.addrs]
  here := by simp [engineInit, routeNew, EngineConf.addrs]
  mine := ⟨_, List.mem_cons_self⟩
  neighs := rfl
  timers := by simp [engineInit]
  tasks := rfl

theorem BootOk.register {s : EngineConf × RouteEngine} (h : BootOk s) (env : Env) (dev : RouteDev) :
    BootOk (routeRegisterDevice env dev s) := by
  obtain ⟨conf, e⟩ := s
  have haddrs : ∀ a, a ∈ ({ conf with devs := dev :: conf.devs } : EngineConf).addrs ↔
      a = dev.ip ∨ a ∈ conf.addrs := by
    intro a
    simp only [EngineConf.addrs, List.map_cons, List.mem_cons]
    tauto
  constructor
  · intro c hc
    rcases List.mem_cons.mp hc with rfl | hc
    · exact ⟨rfl, rfl, (haddrs _).mpr (.inl rfl)⟩
    · obtain ⟨hself, hvalid, hin⟩ := h.self c hc
      exact ⟨hself, hvalid, (haddrs _).mpr (.inr hin)⟩
  · intro a ha
    rcases (haddrs a).mp ha with rfl | ha
    · exact ⟨_, List.mem_cons_self, rfl⟩
    · obtain ⟨c, hc, hip⟩ := h.here a ha
      exact ⟨c, List.mem_cons_of_mem _ hc, hip⟩
  · obtain ⟨r, hr⟩ := h.mine
    exact ⟨r, List.mem_cons_of_mem _ hr⟩
  · exact h.neighs
  · intro task ht
    simp only [routeRegisterDevice] at ht
    split_ifs at ht
    · rcases mem_timerInsert ht with ht | ⟨hty, -⟩
      · rcases mem_timerInsert ht with ht | ⟨hty, -⟩
        · exact h.timers task ht
        · exact .inl hty
      · exact .inr hty
    · exact h.timers task ht
  · exact h.tasks

theorem bootOk_boot (env : Env) (supportGateway : Bool) (localIp localMask : U32)
    (devs : List RouteDev) : BootOk (boot env supportGateway localIp localMask devs) := by
  have hall : ∀ (devs : List RouteDev) (s : EngineConf × RouteEngine), BootOk s →
      BootOk (devs.foldl (fun s dev => routeRegisterDevice env dev s) s) := by
    intro devs
    induction devs with
    | nil => exact fun _ h => h
    | cons dev devs ih => exact fun s h => ih _ (h.register env dev)
  exact hall devs _ (bootOk_engineInit env supportGateway localIp localMask)

theorem BootOk.nodeOk {s : EngineConf × RouteEngine} (h : BootOk s) (heard : Frame → Prop) :
    NodeOk s.1.addrs heard s.2 where
  home :=
    { self_iff := fun c hc => by simp [(h.self c hc).1, (h.self c hc).2.2]
      valid := fun c hc _ => (h.self c hc).2.1
      here := h.here
      distinct := fun c hc _ _ _ hown => absurd (h.self c hc).2.2 hown
      mine := by
        obtain ⟨r, hr⟩ := h.mine
        exact ⟨r, hr, (h.self _ hr).2.2⟩ }
  neighs := by simp [h.neighs]
  timers := by
    intro task ht
    rcases h.timers task ht with hty | hty
    · exact .ofType hty (by decide) (by decide) (by decide) (by decide)
    · exact .ofType hty (by decide) (by decide) (by decide) (by decide)
  tasks := by simp [h.tasks]

end Maodv
end WirelessMesh
