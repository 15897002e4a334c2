import WirelessMesh.Mesh.FwdTable
import WirelessMesh.Lib.Runs

/-!
# The receive backlog of a CPU

Devices hand frames to `swjtu_meshif_rx`, mostly from interrupts; the receive tasklet
`swjtu_mesh_rx_action` polls the backlog device, whose `swjtu_mesh_process_backlog`
takes the frames off again. The model runs one CPU. The tasklet advances from one
point of the code to the next, a frame may come in at any point at which local
interrupts are enabled, and the clock may read anything at each step. The CPU also
keeps the list of the frames that were accepted and of those that were handed to
`__meshif_receive_skb`.
-/

namespace WirelessMesh
namespace Mesh

def meshdevMaxBacklog : ℕ := 300
def weightP : ℤ := 64
def meshRxDrop : ℤ := 1

/-- The address of `blog_dev` of this CPU. -/
def blogDevPtr : DevPtr := 0

/-- The backlog device: its bits `__MESH_LINK_STATE_START` and
`__MESH_LINK_STATE_RX_SCHED`, and its share of the polling. -/
structure BlogDev where
  start : Bool
  rxSched : Bool
  quota : ℤ
  weight : ℤ

/-- `struct softmesh_data`; `rxTask` says that the receive tasklet is scheduled. -/
structure SoftmeshData (φ : Type*) where
  throttle : Bool
  cngLevel : ℤ
  inputPktQueue : List φ
  pollList : List DevPtr
  blogDev : BlogDev
  rxTask : Bool

variable {φ : Type*}

/-- As `init_mesh` leaves it. -/
def SoftmeshData.init : SoftmeshData φ where
  throttle := false
  cngLevel := 0
  inputPktQueue := []
  pollList := []
  blogDev := { start := true, rxSched := false, quota := 0, weight := weightP }
  rxTask := false

def BlogDev.refill (dev : BlogDev) : BlogDev :=
  { dev with quota := if dev.quota < 0 then dev.quota + dev.weight else dev.weight }

/-- `meshif_rx_schedule` on the backlog device. -/
def meshifRxSchedule (soft : SoftmeshData φ) : SoftmeshData φ :=
  if soft.blogDev.start && !soft.blogDev.rxSched then
    { soft with
      pollList := soft.pollList ++ [blogDevPtr]
      blogDev := { soft.blogDev with rxSched := true }.refill
      rxTask := true }
  else soft

def enqueue (soft : SoftmeshData φ) (skb : φ) : SoftmeshData φ :=
  { soft with inputPktQueue := soft.inputPktQueue ++ [skb] }

/-- `swjtu_meshif_rx`, with interrupts off throughout: the answer, and whether the
frame was accepted. -/
def meshifRx (soft : SoftmeshData φ) (skb : φ) : ℤ × Bool × SoftmeshData φ :=
  if soft.inputPktQueue.length ≤ meshdevMaxBacklog then
    if soft.inputPktQueue ≠ [] then
      if soft.throttle then (meshRxDrop, false, soft)
      else (soft.cngLevel, true, enqueue soft skb)
    else
      let soft := meshifRxSchedule { soft with throttle := false }
      (soft.cngLevel, true, enqueue soft skb)
  else (meshRxDrop, false, { soft with throttle := true })

/-! ## The tasklet -/

/-- The variables of `swjtu_mesh_rx_action` and of `swjtu_mesh_process_backlog`. -/
structure Poll where
  budget : ℤ
  actionStart : Jiffies
  quota : ℤ
  work : ℤ
  startTime : Jiffies

inductive Pc (φ : Type*) where
  /-- Not running. -/
  | idle
  /-- At the test of the loop, interrupts off. -/
  | scan (budget : ℤ) (startTime : Jiffies)
  /-- About to read the first device of the poll list. -/
  | choose (budget : ℤ) (startTime : Jiffies)
  /-- In the poll function, about to take a frame. -/
  | fetch (poll : Poll)
  /-- With a frame for `__meshif_receive_skb`. -/
  | receive (poll : Poll) (skb : φ)
  /-- About to count the frame. -/
  | check (poll : Poll)
  /-- The queue was found empty, interrupts off. -/
  | jobDone (poll : Poll)
  /-- The device keeps its place in the round. -/
  | requeue (budget : ℤ) (startTime : Jiffies) (dev : DevPtr)
  /-- The device left the round. -/
  | leave (budget : ℤ) (startTime : Jiffies)

namespace Pc

def irqOff : Pc φ → Bool
  | scan .. => true
  | jobDone .. => true
  | _ => false

def inHand : Pc φ → List φ
  | receive _ skb => [skb]
  | _ => []

end Pc

structure Cpu (φ : Type*) where
  soft : SoftmeshData φ
  pc : Pc φ
  accepted : List φ
  handed : List φ

def Cpu.start : Cpu φ := ⟨.init, .idle, [], []⟩

def taskletStep (now : Jiffies) (cpu : Cpu φ) : Option (Cpu φ) :=
  let soft := cpu.soft
  match cpu.pc with
  | .idle =>
      if soft.rxTask then
        some { cpu with soft := { soft with rxTask := false }, pc := .scan meshdevMaxBacklog now }
      else none
  | .scan budget startTime =>
      if soft.pollList = [] then some { cpu with pc := .idle }
      else if budget ≤ 0 ∨ 1 < now - startTime then
        some { cpu with soft := { soft with rxTask := true }, pc := .idle }
      else some { cpu with pc := .choose budget startTime }
  | .choose budget startTime =>
      -- The backlog device is the only one with a poll function.
      if soft.pollList.head? = some blogDevPtr then
        if soft.blogDev.quota ≤ 0 then
          some { cpu with pc := .requeue budget startTime blogDevPtr }
        else
          some { cpu with pc := .fetch ⟨budget, startTime, min soft.blogDev.quota budget, 0, now⟩ }
      else none
  | .fetch poll =>
      match soft.inputPktQueue with
      | [] => some { cpu with pc := .jobDone poll }
      | skb :: rest =>
          some { cpu with soft := { soft with inputPktQueue := rest }, pc := .receive poll skb }
  | .receive poll skb => some { cpu with handed := cpu.handed ++ [skb], pc := .check poll }
  | .check poll =>
      let work := poll.work + 1
      if poll.quota ≤ work ∨ 1 < now - poll.startTime then
        some { cpu with
          soft := { soft with
            blogDev := { soft.blogDev with quota := soft.blogDev.quota - work } }
          pc := .requeue (poll.budget - work) poll.actionStart blogDevPtr }
      else some { cpu with pc := .fetch { poll with work } }
  | .jobDone poll =>
      some { cpu with
        soft := { soft with
          blogDev := { soft.blogDev with
            quota := soft.blogDev.quota - poll.work, rxSched := false }
          pollList := soft.pollList.erase blogDevPtr
          throttle := false }
        pc := .leave (poll.budget - poll.work) poll.actionStart }
  | .requeue budget startTime dev =>
      some { cpu with
        soft := { soft with
          pollList := soft.pollList.erase dev ++ [dev]
          blogDev := soft.blogDev.refill }
        pc := .scan budget startTime }
  | .leave budget startTime => some { cpu with pc := .scan budget startTime }

inductive CpuEvent (φ : Type*) where
  | rx (skb : φ)
  | tasklet

/-- One step of the CPU: a frame comes in, where interrupts are on, or the tasklet runs on. -/
def cpuStep : Jiffies × CpuEvent φ → Cpu φ → Option (Cpu φ)
  | (_, .rx skb), cpu =>
      if cpu.pc.irqOff then none
      else
        let (_, accepted, soft) := meshifRx cpu.soft skb
        some { cpu with
          soft
          accepted := if accepted then cpu.accepted ++ [skb] else cpu.accepted }
  | (now, .tasklet), cpu => taskletStep now cpu

end Mesh
end WirelessMesh
