import WirelessMesh.Lib.Runs
import WirelessMesh.Maodv.HandlerCases
import Mathlib.Logic.Relation
import Mathlib.Data.Fintype.Basic

/-!
# A network of maodv engines

Every node runs its own engine. Whatever a node has sent stays in the air and may
arrive at any other node in its range at any later time, any number of times or
never; the engines' tasks, timers and outgoing packets interleave freely. RERR
datagrams are sent but not delivered.
-/

namespace WirelessMesh
namespace Maodv

open Routes

variable {Node : Type*}

structure Deployment (Node : Type*) where
  supportGateway : Node → Bool
  localIp : Node → U32
  localMask : Node → U32
  devs : Node → List RouteDev
  loaded : Node → Env
  unique : ∀ (a : U32) (n m : Node), a ∈ localIp n :: (devs n).map (·.ip) →
    a ∈ localIp m :: (devs m).map (·.ip) → n = m

/-- The clock, the engines, and every datagram sent so far with its sender. -/
structure Net (Node : Type*) where
  now : U32
  engine : Node → RouteEngine
  air : List (Node × Frame)

namespace Deployment

variable (D : Deployment Node)

def booted (n : Node) : EngineConf × RouteEngine :=
  boot (D.loaded n) (D.supportGateway n) (D.localIp n) (D.localMask n) (D.devs n)

def conf (n : Node) : EngineConf := (D.booted n).1

def start : Net Node where
  now := 0
  engine := fun n => (D.booted n).2
  air := []

/-- The node answers to the address. -/
def Owns (n : Node) (a : U32) : Prop := a ∈ (D.conf n).addrs

end Deployment

def Net.env (σ : Net Node) (mem : AllocSite → Bool) (stale : Stale) : Env := ⟨σ.now, mem, stale⟩

section Steps

variable [DecidableEq Node]

def Net.after (σ : Net Node) (n : Node) (done : Done) : Net Node :=
  { σ with
    engine := fun m => if m = n then done.engine else σ.engine m
    air := σ.air ++ done.sent.map fun f => (n, f) }

inductive Act (Node : Type*) where
  | tick (ms : ℕ)
  | output (n : Node) (mem : AllocSite → Bool) (stale : Stale) (daddr : U32)
  | receive (n : Node) (mem : AllocSite → Bool) (stale : Stale) (dev : RouteDev) (i : ℕ)
  | signal (n : Node)
  | work (n : Node) (mem : AllocSite → Bool) (stale : Stale)

def isRouteMessage : Pdu → Bool
  | .request _ => true
  | .reply _ => true
  | _ => false

/-- A broadcast is heard by everyone, a unicast datagram by the owner of its address. -/
def hears (conf : EngineConf) (f : Frame) : Bool :=
  f.dstIp == conf.broadcastIp || conf.addrs.contains f.dstIp

def Net.step (D : Deployment Node) (σ : Net Node) : Act Node → Option (Net Node)
  | .tick ms => some { σ with now := σ.now + BitVec.ofNat 32 ms }
  | .output n mem stale daddr =>
      some (σ.after n (ipPacketOutput (D.conf n) (σ.env mem stale) daddr (σ.engine n)).2)
  | .receive n mem stale dev i => do
      let (m, f) ← σ.air[i]?
      if m ≠ n && (D.conf n).devs.contains dev && hears (D.conf n) f && isRouteMessage f.pdu then
        some (σ.after n ⟨0, ipPacketInput (σ.env mem stale) dev f (σ.engine n), []⟩)
      else none
  | .signal n => some (σ.after n ⟨0, timerQueueSignal (.plenty σ.now) (σ.engine n), []⟩)
  | .work n mem stale => (kthread (D.conf n) (σ.env mem stale) (σ.engine n)).map (σ.after n)

/-- A state, and the states before it with the latest first. -/
abbrev History (Node : Type*) := Net Node × List (Net Node)

def Net.record (D : Deployment Node) (act : Act Node) (s : History Node) :
    Option (History Node) :=
  (s.1.step D act).map fun σ => (σ, s.1 :: s.2)

end Steps

/-- Forwarding for `d`: from a node with a valid learned route to the node that
answers to its next hop. -/
def Net.Hop (D : Deployment Node) (σ : Net Node) (d : U32) (n m : Node) : Prop :=
  ∃ c ∈ (σ.engine n).routes.cells, c.2.ip = d ∧ c.2.routeValid = true ∧ c.2.selfRoute = false ∧
    D.Owns m c.2.nextHop

instance (D : Deployment Node) (σ : Net Node) (d : U32) (n m : Node) :
    Decidable (σ.Hop D d n m) :=
  inferInstanceAs (Decidable (∃ c ∈ (σ.engine n).routes.cells, c.2.ip = d ∧
    c.2.routeValid = true ∧ c.2.selfRoute = false ∧ c.2.nextHop ∈ (D.conf m).addrs))

def advert : Pdu → Option (U32 × U32)
  | .request request => some (request.srcIp, request.srcSeq)
  | .reply reply => some (reply.dstIp, reply.dstSeq)
  | _ => none

/-- No sequence number has come near half the circle. -/
def Net.NoWrap (σ : Net Node) : Prop :=
  (∀ n, ∀ c ∈ (σ.engine n).routes.cells, c.2.seq.toNat + 1 < 2 ^ 31) ∧
    ∀ s ∈ σ.air, ∀ a ∈ advert s.2.pdu, a.2.toNat < 2 ^ 31

instance [Fintype Node] (σ : Net Node) : Decidable σ.NoWrap :=
  -- look at the advertised number only, never through all numbers there are
  have (pdu : Pdu) : Decidable (∀ a ∈ advert pdu, a.2.toNat < 2 ^ 31) :=
    Option.decidableForallMem _
  inferInstanceAs (Decidable (
    (∀ n, ∀ c ∈ (σ.engine n).routes.cells, c.2.seq.toNat + 1 < 2 ^ 31) ∧
      ∀ s ∈ σ.air, ∀ a ∈ advert s.2.pdu, a.2.toNat < 2 ^ 31))

/-! ## Steps that respect the numbers a node has held -/

section Fresh

variable (below : U32 → ℕ → Prop)

/-- A RREQ that is worked on respects the numbers the node has held, where
`below d b` says that those for `d` are below `b`: if the source has no entry, one
is made under a new number, and a gateway answers for an address outside its
subnets through an entry that was usable, that leads straight there, or whose
number is not behind. -/
def FreshRequest (conf : EngineConf) (env : Env) (packet : RouteTask) (request : AodvPduRequest)
    (e : RouteEngine) : Prop :=
  RequestPasses env packet request e →
    (firstRoute e.routes request.srcIp = none →
      env.mem .route = true ∧ below request.srcIp request.srcSeq.toNat) ∧
    (conf.checkSubnet request.dstIp = false → conf.supportGateway = true →
      (∀ c ∈ firstRoute e.routes request.dstIp, c.2.selfRoute = true ∨
        c.2.nextHop = request.dstIp ∨ (c.2.routeValid = true ∧ ageRoute env c.2 = c.2)) ∧
      (firstRoute e.routes request.dstIp = none → ∀ my ∈ e.routes.get? e.myRoute,
        below request.dstIp (my.seq.toNat + 1))) ∧
    (conf.checkSubnet request.dstIp = false → conf.supportGateway = false →
      ∀ c ∈ firstRoute e.routes request.dstIp, c.2.netmask = conf.broadcastIp)

/-- A HELLO must not be behind; a RREP that makes an entry makes it under a new
number. -/
def FreshReply (env : Env) (packet : RouteTask) (reply : AodvPduReply) (e : RouteEngine) : Prop :=
  (reply.srcIp = reply.dstIp → neighFind reply.dstIp e.neighs ≠ none ∨ env.mem .neigh = true →
    below reply.dstIp (reply.dstSeq.toNat + 1)) ∧
  (reply.srcIp ≠ reply.dstIp → neighValid env packet.srcIp e.neighs = true →
    firstRoute e.routes reply.dstIp = none →
      env.mem .route = true ∧ below reply.dstIp reply.dstSeq.toNat)

def FreshTask (conf : EngineConf) (env : Env) (packet : RouteTask) (e : RouteEngine) : Prop :=
  match packet.data with
  | .request request => FreshRequest below conf env packet request e
  | .reply reply => FreshReply below env packet reply e
  | _ => True

variable [∀ d b, Decidable (below d b)]

instance (env : Env) (packet : RouteTask) (request : AodvPduRequest) (e : RouteEngine) :
    Decidable (RequestPasses env packet request e) := by
  delta RequestPasses; infer_instance

instance (conf : EngineConf) (env : Env) (packet : RouteTask) (request : AodvPduRequest)
    (e : RouteEngine) : Decidable (FreshRequest below conf env packet request e) := by
  delta FreshRequest; infer_instance

instance (env : Env) (packet : RouteTask) (reply : AodvPduReply) (e : RouteEngine) :
    Decidable (FreshReply below env packet reply e) := by
  delta FreshReply; infer_instance

instance (conf : EngineConf) (env : Env) (packet : RouteTask) (e : RouteEngine) :
    Decidable (FreshTask below conf env packet e) := by
  delta FreshTask
  cases packet.data <;> infer_instance

end Fresh

/-- Every number the node has held for `d` in the run so far is below `bound`. -/
def HeldBelow (past : List (Net Node)) (n : Node) (d : U32) (bound : ℕ) : Prop :=
  ∀ σ ∈ past, ∀ c ∈ (σ.engine n).routes.cells, c.2.ip = d → c.2.seq.toNat < bound

instance (past : List (Net Node)) (n : Node) (d : U32) (bound : ℕ) :
    Decidable (HeldBelow past n d bound) :=
  inferInstanceAs (Decidable
    (∀ σ ∈ past, ∀ c ∈ (σ.engine n).routes.cells, c.2.ip = d → c.2.seq.toNat < bound))

/-- The condition on one step of the network: numbers have not wrapped, and the
message worked on, if any, respects the numbers the node has held. -/
def Fresh (D : Deployment Node) (past : List (Net Node)) (σ : Net Node) : Act Node → Prop
  | .work n mem stale => σ.NoWrap ∧ ∀ task ∈ (σ.engine n).tasks.head?,
      FreshTask (HeldBelow past n) (D.conf n) (σ.env mem stale) task (σ.engine n)
  | _ => σ.NoWrap

instance [Fintype Node] (D : Deployment Node) (past : List (Net Node)) (σ : Net Node)
    (act : Act Node) : Decidable (Fresh D past σ act) :=
  match act with
  | .work n mem stale => inferInstanceAs (Decidable (σ.NoWrap ∧
      ∀ task ∈ (σ.engine n).tasks.head?,
        FreshTask (HeldBelow past n) (D.conf n) (σ.env mem stale) task (σ.engine n)))
  | .tick _ => inferInstanceAs (Decidable σ.NoWrap)
  | .output _ _ _ _ => inferInstanceAs (Decidable σ.NoWrap)
  | .receive _ _ _ _ _ => inferInstanceAs (Decidable σ.NoWrap)
  | .signal _ => inferInstanceAs (Decidable σ.NoWrap)

/-- The same with the states of the run so far. -/
def FreshStep (D : Deployment Node) (act : Act Node) (s : History Node) : Prop :=
  Fresh D (s.1 :: s.2) s.1 act

instance [Fintype Node] (D : Deployment Node) (act : Act Node) (s : History Node) :
    Decidable (FreshStep D act s) :=
  inferInstanceAs (Decidable (Fresh ..))

end Maodv
end WirelessMesh
