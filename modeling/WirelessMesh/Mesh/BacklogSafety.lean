import WirelessMesh.Mesh.Backlog
import Mathlib.Data.List.Basic
import Mathlib.Tactic.Linarith

/-!
# The backlog loses no frame and no wake-up

The poll list holds the backlog device exactly when the device is marked as
scheduled, and it is so marked whenever a frame waits. Both are kept at every point
of the tasklet, with frames coming in between. The accepted frames are those handed
over, the one in hand and those that wait, in this order.

The tasklet also gets through: from every reachable state its own steps hand over all
that was accepted.
-/

namespace WirelessMesh
namespace Mesh

open Machine

variable {φ : Type*}

structure SoftOk (soft : SoftmeshData φ) : Prop where
  start : soft.blogDev.start = true
  weight : soft.blogDev.weight = weightP
  quota : 0 ≤ soft.blogDev.quota
  listed : soft.pollList = if soft.blogDev.rxSched then [blogDevPtr] else []
  waiting : soft.inputPktQueue ≠ [] → soft.blogDev.rxSched = true
  bounded : soft.inputPktQueue.length ≤ meshdevMaxBacklog + 1

def Polling (soft : SoftmeshData φ) (poll : Poll) : Prop :=
  soft.blogDev.rxSched = true ∧ 0 ≤ poll.work ∧ poll.work < poll.quota ∧
    poll.quota ≤ soft.blogDev.quota

def Place (soft : SoftmeshData φ) : Pc φ → Prop
  | .idle => soft.blogDev.rxSched = true → soft.rxTask = true ∧ 0 < soft.blogDev.quota
  | .scan _ _ => soft.blogDev.rxSched = true → 0 < soft.blogDev.quota
  | .choose budget _ => soft.blogDev.rxSched = true ∧ 0 < soft.blogDev.quota ∧ 0 < budget
  | .fetch poll => Polling soft poll
  | .receive poll _ => Polling soft poll
  | .check poll => Polling soft poll
  | .jobDone poll => Polling soft poll ∧ soft.inputPktQueue = []
  | .requeue _ _ dev => soft.blogDev.rxSched = true ∧ dev = blogDevPtr
  | .leave _ _ => soft.blogDev.rxSched = true → 0 < soft.blogDev.quota

structure CpuOk (cpu : Cpu φ) : Prop where
  soft : SoftOk cpu.soft
  order : cpu.accepted = cpu.handed ++ cpu.pc.inHand ++ cpu.soft.inputPktQueue
  place : Place cpu.soft cpu.pc

theorem cpuOk_start : CpuOk (Cpu.start : Cpu φ) where
  soft := ⟨rfl, rfl, le_refl _, rfl, fun h => absurd rfl h, Nat.zero_le _⟩
  order := rfl
  place := fun h => absurd h (by simp [Cpu.start, SoftmeshData.init])

/-! ## A frame comes in -/

section Rx

variable {soft : SoftmeshData φ}

theorem refill_quota {dev : BlogDev} (hweight : dev.weight = weightP) (hquota : 0 ≤ dev.quota) :
    0 < dev.refill.quota := by
  have hpos : (0 : ℤ) < weightP := by decide
  simp only [BlogDev.refill]
  split_ifs
  · omega
  · rw [hweight]
    exact hpos

theorem meshifRxSchedule_spec (h : SoftOk soft) :
    SoftOk (meshifRxSchedule soft) ∧ (meshifRxSchedule soft).blogDev.rxSched = true ∧
      (meshifRxSchedule soft).inputPktQueue = soft.inputPktQueue ∧
      (if soft.blogDev.rxSched then meshifRxSchedule soft = soft
        else (meshifRxSchedule soft).rxTask = true ∧
          0 < (meshifRxSchedule soft).blogDev.quota) := by
  unfold meshifRxSchedule
  cases hs : soft.blogDev.rxSched with
  | true => simpa [hs] using h
  | false =>
      have hcond : (soft.blogDev.start && !soft.blogDev.rxSched) = true := by simp [h.start, hs]
      have hquota : 0 < ({ soft.blogDev with rxSched := true } : BlogDev).refill.quota :=
        refill_quota h.weight h.quota
      rw [← hs, if_pos hcond]
      refine ⟨⟨h.start, h.weight, le_of_lt hquota, ?_, fun _ => rfl, h.bounded⟩, rfl, rfl, ?_⟩
      · simp [h.listed, hs, BlogDev.refill]
      · simpa [hs] using hquota

structure RxEffect (soft : SoftmeshData φ) (skb : φ) (accepted : Bool) (soft' : SoftmeshData φ) :
    Prop where
  ok : SoftOk soft'
  queue : soft'.inputPktQueue = soft.inputPktQueue ++ if accepted then [skb] else []
  /-- A scheduled device is left alone. -/
  kept : soft.blogDev.rxSched = true →
    soft'.blogDev = soft.blogDev ∧ soft'.rxTask = soft.rxTask
  woken : soft.blogDev.rxSched = false → soft'.blogDev.rxSched = true →
    soft'.rxTask = true ∧ 0 < soft'.blogDev.quota

theorem RxEffect.dropped (h : SoftOk soft) (skb : φ) (throttle : Bool) :
    RxEffect soft skb false { soft with throttle } where
  ok := ⟨h.start, h.weight, h.quota, h.listed, h.waiting, h.bounded⟩
  queue := (List.append_nil _).symm
  kept := fun _ => ⟨rfl, rfl⟩
  woken := fun hs hs' => absurd (hs.symm.trans hs') (by decide)

theorem SoftOk.enqueue (h : SoftOk soft) (hs : soft.blogDev.rxSched = true)
    (hroom : soft.inputPktQueue.length ≤ meshdevMaxBacklog) (skb : φ) :
    SoftOk (enqueue soft skb) where
  start := h.start
  weight := h.weight
  quota := h.quota
  listed := h.listed
  waiting := fun _ => hs
  bounded := by
    rw [Mesh.enqueue, List.length_append, List.length_singleton]
    exact Nat.succ_le_succ hroom

theorem rxEffect_meshifRx (h : SoftOk soft) (skb : φ) :
    RxEffect soft skb (meshifRx soft skb).2.1 (meshifRx soft skb).2.2 := by
  unfold meshifRx
  by_cases hroom : soft.inputPktQueue.length ≤ meshdevMaxBacklog
  · rw [if_pos hroom]
    by_cases hbusy : soft.inputPktQueue = []
    · rw [if_neg (not_not_intro hbusy)]
      have h' : SoftOk { soft with throttle := false } := (RxEffect.dropped h skb false).ok
      obtain ⟨hok, hs, hqueue, hcase⟩ := meshifRxSchedule_spec h'
      refine ⟨hok.enqueue hs (by rwa [hqueue]) skb, ?_, fun hold => ?_, fun hold _ => ?_⟩
      · simp [Mesh.enqueue, hqueue]
      · rw [if_pos hold] at hcase
        simp [Mesh.enqueue, hcase]
      · rw [if_neg (by simp [hold])] at hcase
        exact hcase
    · rw [if_pos hbusy]
      have hs := h.waiting hbusy
      split_ifs
      · exact .dropped h skb soft.throttle
      · refine ⟨h.enqueue hs hroom skb, rfl, fun _ => ⟨rfl, rfl⟩, fun hold => ?_⟩
        simp [hs] at hold
  · rw [if_neg hroom]
    exact .dropped h skb true

/-- Where interrupts are on, what the tasklet knows survives a frame coming in. -/
theorem RxEffect.place {skb : φ} {accepted : Bool} {soft' : SoftmeshData φ} {pc : Pc φ}
    (h : RxEffect soft skb accepted soft') (hirq : pc.irqOff = false) (hplace : Place soft pc) :
    Place soft' pc := by
  cases hs : soft.blogDev.rxSched with
  | true =>
      obtain ⟨hdev, htask⟩ := h.kept hs
      cases pc with
      | scan | jobDone => simp [Pc.irqOff] at hirq
      | _ => simpa only [Place, Polling, hdev, htask] using hplace
  | false =>
      have hwoken := h.woken hs
      cases pc with
      | scan | jobDone => simp [Pc.irqOff] at hirq
      | idle => exact hwoken
      | leave => exact fun hs' => (hwoken hs').2
      | _ => simp [Place, Polling, hs] at hplace

end Rx

/-! ## The tasklet runs on -/

section Soft

variable {soft : SoftmeshData φ}

theorem SoftOk.withTask (h : SoftOk soft) (rxTask : Bool) : SoftOk { soft with rxTask } :=
  ⟨h.start, h.weight, h.quota, h.listed, h.waiting, h.bounded⟩

theorem SoftOk.dequeue {skb : φ} {rest : List φ} (h : SoftOk soft)
    (hs : soft.blogDev.rxSched = true) (hqueue : soft.inputPktQueue = skb :: rest) :
    SoftOk { soft with inputPktQueue := rest } where
  start := h.start
  weight := h.weight
  quota := h.quota
  listed := h.listed
  waiting := fun _ => hs
  bounded := by
    have hbound := h.bounded
    rw [hqueue, List.length_cons] at hbound
    exact (Nat.le_succ _).trans hbound

theorem SoftOk.spend {work : ℤ} (h : SoftOk soft) (hwork : work ≤ soft.blogDev.quota) :
    SoftOk { soft with blogDev := { soft.blogDev with quota := soft.blogDev.quota - work } } :=
  ⟨h.start, h.weight, sub_nonneg.mpr hwork, h.listed, h.waiting, h.bounded⟩

theorem SoftOk.complete {work : ℤ} (h : SoftOk soft) (hs : soft.blogDev.rxSched = true)
    (hqueue : soft.inputPktQueue = []) (hwork : work ≤ soft.blogDev.quota) :
    SoftOk { soft with
      blogDev := { soft.blogDev with quota := soft.blogDev.quota - work, rxSched := false }
      pollList := soft.pollList.erase blogDevPtr
      throttle := false } where
  start := h.start
  weight := h.weight
  quota := sub_nonneg.mpr hwork
  listed := by simp [h.listed, hs]
  waiting := fun hne => absurd hqueue hne
  bounded := h.bounded

theorem SoftOk.requeue (h : SoftOk soft) (hs : soft.blogDev.rxSched = true) :
    SoftOk { soft with
      pollList := soft.pollList.erase blogDevPtr ++ [blogDevPtr]
      blogDev := soft.blogDev.refill } where
  start := h.start
  weight := h.weight
  quota := (refill_quota h.weight h.quota).le
  listed := by simp [h.listed, hs, BlogDev.refill]
  waiting := h.waiting
  bounded := h.bounded

theorem SoftOk.pollList_eq_nil_iff (h : SoftOk soft) :
    soft.pollList = [] ↔ soft.blogDev.rxSched = false := by
  rw [h.listed]
  cases soft.blogDev.rxSched <;> simp

end Soft

theorem CpuOk.move {cpu : Cpu φ} {pc : Pc φ} (h : CpuOk cpu) (hhand : pc.inHand = cpu.pc.inHand)
    (hplace : Place cpu.soft pc) : CpuOk { cpu with pc } where
  soft := h.soft
  order := by rw [h.order, hhand]
  place := hplace

theorem cpuOk_taskletStep {now : Jiffies} {cpu cpu' : Cpu φ} (h : CpuOk cpu)
    (hstep : taskletStep now cpu = some cpu') : CpuOk cpu' := by
  obtain ⟨soft, pc, accepted, handed⟩ := cpu
  have hsoft : SoftOk soft := h.soft
  have hplace : Place soft pc := h.place
  have horder : accepted = handed ++ pc.inHand ++ soft.inputPktQueue := h.order
  cases pc with
  | idle =>
      simp only [taskletStep] at hstep
      split_ifs at hstep
      obtain rfl := Option.some.inj hstep
      exact ⟨hsoft.withTask false, horder, fun hs => (hplace hs).2⟩
  | scan budget startTime =>
      simp only [taskletStep] at hstep
      split_ifs at hstep with hempty hbreak
      · obtain rfl := Option.some.inj hstep
        refine h.move rfl fun hs => ?_
        simp [hsoft.pollList_eq_nil_iff.mp hempty] at hs
      · obtain rfl := Option.some.inj hstep
        exact ⟨hsoft.withTask true, horder, fun hs => ⟨rfl, hplace hs⟩⟩
      · obtain rfl := Option.some.inj hstep
        have hs : soft.blogDev.rxSched = true := by
          rwa [hsoft.pollList_eq_nil_iff, Bool.not_eq_false] at hempty
        exact h.move rfl ⟨hs, hplace hs, by omega⟩
  | choose budget startTime =>
      obtain ⟨hs, hquota, hbudget⟩ := hplace
      simp only [taskletStep] at hstep
      split_ifs at hstep with hhead hnone
      · omega
      · obtain rfl := Option.some.inj hstep
        exact h.move rfl ⟨hs, le_refl _, lt_min hquota hbudget, min_le_left _ _⟩
  | fetch poll =>
      simp only [taskletStep] at hstep
      cases hqueue : soft.inputPktQueue with
      | nil =>
          simp only [hqueue] at hstep
          obtain rfl := Option.some.inj hstep
          exact h.move rfl ⟨hplace, hqueue⟩
      | cons skb rest =>
          simp only [hqueue] at hstep
          obtain rfl := Option.some.inj hstep
          refine ⟨hsoft.dequeue hplace.1 hqueue, ?_, hplace⟩
          simp [horder, hqueue, Pc.inHand]
  | receive poll skb =>
      obtain rfl := Option.some.inj hstep
      refine ⟨hsoft, ?_, hplace⟩
      simp [horder, Pc.inHand]
  | check poll =>
      obtain ⟨hs, hwork, hlt, hle⟩ := hplace
      simp only [taskletStep] at hstep
      split_ifs at hstep with hbreak
      · obtain rfl := Option.some.inj hstep
        exact ⟨hsoft.spend (by omega), horder, hs, rfl⟩
      · obtain rfl := Option.some.inj hstep
        refine h.move rfl ⟨hs, ?_, ?_, hle⟩
        · simp only
          omega
        · simp only
          omega
  | jobDone poll =>
      obtain ⟨⟨hs, hwork, hlt, hle⟩, hqueue⟩ := hplace
      obtain rfl := Option.some.inj hstep
      refine ⟨hsoft.complete hs hqueue (by omega), horder, fun hs' => ?_⟩
      simp at hs'
  | requeue budget startTime dev =>
      obtain ⟨hs, rfl⟩ := hplace
      obtain rfl := Option.some.inj hstep
      exact ⟨hsoft.requeue hs, horder, fun _ => refill_quota hsoft.weight hsoft.quota⟩
  | leave budget startTime =>
      obtain rfl := Option.some.inj hstep
      exact h.move rfl hplace

theorem cpuOk_cpuStep {event : Jiffies × CpuEvent φ} {cpu cpu' : Cpu φ} (h : CpuOk cpu)
    (hstep : cpuStep event cpu = some cpu') : CpuOk cpu' := by
  obtain ⟨now, event⟩ := event
  cases event with
  | rx skb =>
      simp only [cpuStep] at hstep
      cases hirq : cpu.pc.irqOff with
      | true => simp [hirq] at hstep
      | false =>
          rw [hirq, if_neg (by decide)] at hstep
          obtain rfl := Option.some.inj hstep
          have heff := rxEffect_meshifRx h.soft skb
          refine ⟨heff.ok, ?_, heff.place hirq h.place⟩
          simp only [heff.queue, h.order]
          split_ifs <;> simp
  | tasklet => exact cpuOk_taskletStep h hstep

/-! ## The tasklet gets through -/

/-- How far the tasklet is from taking the next frame, with the clock at `now`. -/
def rank (now : Jiffies) : Pc φ → ℕ
  | .fetch _ => 0
  | .receive _ _ => 0
  | .jobDone _ => 0
  | .choose _ _ => 1
  | .scan budget startTime => if budget ≤ 0 ∨ 1 < now - startTime then 4 else 2
  | .idle => 3
  | .requeue _ _ _ => 5
  | .leave _ _ => 5
  | .check _ => 6

/-- The frames still to be handed over weigh more than any detour. -/
def remaining (now : Jiffies) (cpu : Cpu φ) : ℕ :=
  9 * (2 * cpu.soft.inputPktQueue.length + cpu.pc.inHand.length) + rank now cpu.pc

def Drained (cpu : Cpu φ) : Prop := cpu.soft.inputPktQueue = [] ∧ cpu.pc.inHand = []

/-- Until all is handed over the tasklet can go on, and each step brings it nearer. -/
theorem taskletStep_progress (now : Jiffies) {cpu : Cpu φ} (h : CpuOk cpu) (hleft : ¬Drained cpu) :
    ∃ cpu', taskletStep now cpu = some cpu' ∧ cpu'.accepted = cpu.accepted ∧
      remaining now cpu' < remaining now cpu := by
  obtain ⟨soft, pc, accepted, handed⟩ := cpu
  have hsoft : SoftOk soft := h.soft
  have hplace : Place soft pc := h.place
  have hwait : pc.inHand = [] → soft.inputPktQueue ≠ [] := fun hhand hq => hleft ⟨hq, hhand⟩
  cases pc with
  | idle =>
      obtain ⟨htask, _⟩ := hplace (hsoft.waiting (hwait rfl))
      simp only [taskletStep, htask, if_true]
      refine ⟨_, rfl, rfl, ?_⟩
      have hgood : ¬((meshdevMaxBacklog : ℤ) ≤ 0 ∨ 1 < now - now) := by
        simp [meshdevMaxBacklog]
      simp only [remaining, rank, Pc.inHand, if_neg hgood]
      omega
  | scan budget startTime =>
      have hlisted : soft.pollList ≠ [] := by
        simp [hsoft.pollList_eq_nil_iff, hsoft.waiting (hwait rfl)]
      by_cases hbreak : budget ≤ 0 ∨ 1 < now - startTime
      · simp only [taskletStep, if_neg hlisted, if_pos hbreak]
        refine ⟨_, rfl, rfl, ?_⟩
        simp only [remaining, rank, Pc.inHand, if_pos hbreak]
        omega
      · simp only [taskletStep, if_neg hlisted, if_neg hbreak]
        refine ⟨_, rfl, rfl, ?_⟩
        simp only [remaining, rank, Pc.inHand, if_neg hbreak]
        omega
  | choose budget startTime =>
      obtain ⟨hs, hquota, hbudget⟩ := hplace
      have hhead : soft.pollList.head? = some blogDevPtr := by simp [hsoft.listed, hs]
      have hpos : ¬soft.blogDev.quota ≤ 0 := by omega
      simp only [taskletStep, if_pos hhead, if_neg hpos]
      refine ⟨_, rfl, rfl, ?_⟩
      simp [remaining, rank, Pc.inHand]
  | fetch poll =>
      cases hqueue : soft.inputPktQueue with
      | nil => exact absurd hqueue (hwait rfl)
      | cons skb rest =>
          simp only [taskletStep, hqueue]
          refine ⟨_, rfl, rfl, ?_⟩
          simp only [remaining, rank, Pc.inHand, hqueue, List.length_cons, List.length_nil]
          omega
  | receive poll skb =>
      refine ⟨_, rfl, rfl, ?_⟩
      simp only [remaining, rank, Pc.inHand, List.length_cons, List.length_nil]
      omega
  | check poll =>
      simp only [taskletStep]
      split_ifs
      · exact ⟨_, rfl, rfl, by simp [remaining, rank, Pc.inHand]⟩
      · exact ⟨_, rfl, rfl, by simp [remaining, rank, Pc.inHand]⟩
  | jobDone poll => exact absurd hplace.2 (hwait rfl)
  | requeue budget startTime dev =>
      refine ⟨_, rfl, rfl, ?_⟩
      simp only [remaining, rank, Pc.inHand]
      split_ifs <;> omega
  | leave budget startTime =>
      refine ⟨_, rfl, rfl, ?_⟩
      simp only [remaining, rank, Pc.inHand]
      split_ifs <;> omega

/-! ## What a run guarantees -/

/-- The frames handed over are those accepted, each once and in order, up to those that
still wait; and what waits will be polled. -/
structure BacklogSafe (cpu : Cpu φ) : Prop where
  scheduled : cpu.soft.inputPktQueue ≠ [] →
    cpu.soft.blogDev.rxSched = true ∧ blogDevPtr ∈ cpu.soft.pollList
  once : cpu.soft.pollList.count blogDevPtr ≤ 1
  bounded : cpu.soft.inputPktQueue.length ≤ meshdevMaxBacklog + 1
  order : cpu.accepted = cpu.handed ++ cpu.pc.inHand ++ cpu.soft.inputPktQueue
  woken : cpu.soft.inputPktQueue ≠ [] → cpu.pc = .idle → cpu.soft.rxTask = true
  drains : ∀ now : Jiffies, ∃ n cpu',
    finish cpuStep (List.replicate n (now, .tasklet)) cpu = some cpu' ∧
      cpu'.soft.inputPktQueue = [] ∧ cpu'.accepted = cpu.accepted ∧ cpu'.handed = cpu.accepted

theorem CpuOk.safe {cpu : Cpu φ} (h : CpuOk cpu) : BacklogSafe cpu where
  scheduled := by
    intro hwait
    have hs := h.soft.waiting hwait
    exact ⟨hs, by simp [h.soft.listed, hs]⟩
  once := by
    rw [h.soft.listed]
    split_ifs <;> simp
  bounded := h.soft.bounded
  order := h.order
  woken := by
    intro hwait hidle
    have hplace := h.place
    rw [hidle] at hplace
    exact (hplace (h.soft.waiting hwait)).1
  drains := by
    intro now
    have hprog : ∀ c : Cpu φ, CpuOk c ∧ c.accepted = cpu.accepted → ¬Drained c →
        ∃ c', cpuStep (now, .tasklet) c = some c' ∧
          (CpuOk c' ∧ c'.accepted = cpu.accepted) ∧ remaining now c' < remaining now c := by
      rintro c ⟨hc, hca⟩ hleft
      obtain ⟨c', hstep, hacc, hlt⟩ := taskletStep_progress now hc hleft
      exact ⟨c', hstep, ⟨cpuOk_taskletStep hc hstep, hacc.trans hca⟩, hlt⟩
    obtain ⟨n, cpu', hfin, ⟨hok, hacc⟩, hqueue, hhand⟩ :=
      finish_of_measure (remaining now) _ hprog ⟨h, rfl⟩
    refine ⟨n, cpu', hfin, hqueue, hacc, ?_⟩
    have horder := hok.order
    rw [hqueue, hhand, List.append_nil, List.append_nil] at horder
    exact horder.symm.trans hacc

/-- Whatever comes in and however the clock runs, the backlog is safe in every state. -/
theorem backlog_safe {events : List (Jiffies × CpuEvent φ)} {cpu : Cpu φ}
    (h : Visits cpuStep .start events cpu) : BacklogSafe cpu :=
  (h.invariant (P := CpuOk) cpuOk_cpuStep cpuOk_start).safe

/-- A frame wakes the tasklet, and a second one comes in while it polls. -/
def burst : List (Jiffies × CpuEvent ℕ) :=
  [(0, .rx 1), (0, .tasklet), (0, .tasklet), (0, .tasklet), (0, .rx 2), (0, .tasklet)]

theorem backlog_safe_burst : ∃ cpu : Cpu ℕ,
    cpu.pc.inHand = [1] ∧ cpu.soft.inputPktQueue = [2] ∧ BacklogSafe cpu := by
  have hrun : (finish cpuStep burst .start).any (fun cpu =>
      decide (cpu.pc.inHand = [1] ∧ cpu.soft.inputPktQueue = [2])) = true := by decide
  obtain ⟨cpu, hv, hhand, hqueue⟩ := exists_visits hrun
  exact ⟨cpu, hhand, hqueue, backlog_safe hv⟩

end Mesh
end WirelessMesh
