import WirelessMesh.Mesh.BacklogSafety

/-!
# What one run of the receive tasklet does

`swjtu_mesh_rx_action` may hand over `meshdev_max_backlog` frames, in turns that the
quota of the backlog device cuts. With no interrupt and the clock standing still the run
comes to its end; what its turns have spent and what is left of the budget always add up.
-/

namespace WirelessMesh
namespace Mesh

open Machine

variable {φ : Type*}

namespace Pc

def budget : Pc φ → ℤ
  | idle => 0
  | scan budget _ => budget
  | choose budget _ => budget
  | fetch poll => poll.budget
  | receive poll _ => poll.budget
  | check poll => poll.budget
  | jobDone poll => poll.budget
  | requeue budget _ _ => budget
  | leave budget _ => budget

/-- The frames that the turn has handed over and not yet taken off the budget. -/
def unpaid : Pc φ → ℤ
  | fetch poll => poll.work
  | receive poll _ => poll.work
  | check poll => poll.work + 1
  | jobDone poll => poll.work
  | _ => 0

def isIdle : Pc φ → Bool
  | idle => true
  | _ => false

end Pc

/-- One step inside a run of `swjtu_mesh_rx_action`. -/
def actionStep (now : Jiffies) (cpu : Cpu φ) : Option (Cpu φ) :=
  if cpu.pc.isIdle then none else taskletStep now cpu

/-- In a turn that began at `now`. -/
structure InTurn (now : Jiffies) (soft : SoftmeshData φ) (poll : Poll) : Prop where
  listed : soft.pollList = [blogDevPtr]
  actionStart : poll.actionStart = now
  startTime : poll.startTime = now
  share : poll.quota = min soft.blogDev.quota poll.budget
  work : 0 ≤ poll.work
  below : poll.work < poll.quota

/-- What a run that began at `now` knows at each point; `spent` frames were handed over. -/
def Standing (now : Jiffies) (spent : ℤ) (soft : SoftmeshData φ) : Pc φ → Prop
  | .idle => (soft.inputPktQueue = [] ∧ spent ≤ meshdevMaxBacklog) ∨
      (soft.rxTask = true ∧ soft.pollList = [blogDevPtr] ∧ spent = meshdevMaxBacklog)
  | .scan budget startTime => startTime = now ∧ 0 ≤ budget
  | .choose budget startTime => startTime = now ∧ 0 < budget ∧ soft.pollList = [blogDevPtr]
  | .fetch poll => InTurn now soft poll
  | .receive poll _ => InTurn now soft poll
  | .check poll => InTurn now soft poll
  | .jobDone poll => InTurn now soft poll ∧ soft.inputPktQueue = []
  -- A turn ends early only when the whole budget is spent.
  | .requeue budget startTime dev => startTime = now ∧ 0 ≤ budget ∧ dev = blogDevPtr ∧
      soft.pollList = [blogDevPtr] ∧ (0 < soft.blogDev.quota → budget = 0)
  | .leave budget startTime => startTime = now ∧ 0 ≤ budget ∧ soft.pollList = []

def spent (cpu₀ cpu : Cpu φ) : ℤ := cpu.handed.length - cpu₀.handed.length

structure Spending (now : Jiffies) (cpu₀ cpu : Cpu φ) : Prop where
  weight : 0 < cpu.soft.blogDev.weight
  quota : 0 ≤ cpu₀.soft.blogDev.quota → 0 ≤ cpu.soft.blogDev.quota
  listed : cpu.soft.pollList = [blogDevPtr] ∨
    (cpu.soft.pollList = [] ∧ cpu.soft.inputPktQueue = [])
  order : cpu.handed ++ cpu.pc.inHand ++ cpu.soft.inputPktQueue =
    cpu₀.handed ++ cpu₀.soft.inputPktQueue
  account : cpu.pc.isIdle = false →
    spent cpu₀ cpu + (cpu.pc.budget - cpu.pc.unpaid) = meshdevMaxBacklog
  standing : Standing now (spent cpu₀ cpu) cpu.soft cpu.pc

/-- The distance of a point from the end of the run, apart from frames and refills. -/
def detour (soft : SoftmeshData φ) : Pc φ → ℕ
  | .idle => 0
  | .scan budget _ => if soft.pollList = [] ∨ budget ≤ 0 then 1 else 6
  | .choose _ _ => 5
  | .fetch _ => 4
  | .receive _ _ => 0
  | .check _ => 13
  | .jobDone _ => 3
  | .requeue _ _ _ => 4
  | .leave _ _ => 2

/-- Frames weigh more than refills of the quota, and these more than the way between
two points. -/
def toGo (cpu : Cpu φ) : ℕ :=
  20 * (2 * cpu.soft.inputPktQueue.length + cpu.pc.inHand.length) +
    8 * (1 - cpu.soft.blogDev.quota).toNat + detour cpu.soft cpu.pc

/-! ## One step -/

section Step

variable {now : Jiffies} {cpu₀ cpu : Cpu φ}

theorem Spending.move {pc : Pc φ} (h : Spending now cpu₀ cpu) (hbusy : cpu.pc.isIdle = false)
    (hhand : pc.inHand = cpu.pc.inHand)
    (hleft : pc.budget - pc.unpaid = cpu.pc.budget - cpu.pc.unpaid)
    (hstanding : Standing now (spent cpu₀ cpu) cpu.soft pc) :
    Spending now cpu₀ { cpu with pc } where
  weight := h.weight
  quota := h.quota
  listed := h.listed
  order := by
    rw [hhand]
    exact h.order
  account := by
    intro _
    rw [hleft]
    exact h.account hbusy
  standing := hstanding

theorem refill_rounds (dev : BlogDev) (hweight : 0 < dev.weight) :
    (1 - dev.refill.quota).toNat ≤ (1 - dev.quota).toNat - 1 ∧
      (0 ≤ dev.quota → 0 ≤ dev.refill.quota) := by
  simp only [BlogDev.refill]
  split_ifs <;> omega

theorem not_late (now : Jiffies) : ¬1 < now - now := by simp

/-- The run takes a step, keeps its account and comes nearer to its end. -/
def GoesOn (now : Jiffies) (cpu₀ cpu : Cpu φ) : Prop :=
  ∃ cpu', taskletStep now cpu = some cpu' ∧ Spending now cpu₀ cpu' ∧ toGo cpu' < toGo cpu

variable {soft : SoftmeshData φ} {accepted handed : List φ} {budget : ℤ} {startTime : Jiffies}
  {poll : Poll}

theorem goesOn_scan (h : Spending now cpu₀ ⟨soft, .scan budget startTime, accepted, handed⟩) :
    GoesOn now cpu₀ ⟨soft, .scan budget startTime, accepted, handed⟩ := by
  have hlisted : soft.pollList = [blogDevPtr] ∨
    (soft.pollList = [] ∧ soft.inputPktQueue = []) := h.listed
  obtain ⟨rfl, hbudget⟩ := h.standing
  have haccount : spent cpu₀ _ + (budget - 0) = meshdevMaxBacklog := h.account rfl
  rcases hlisted with hlist | ⟨hlist, hqueue⟩
  · have hne : soft.pollList ≠ [] := by simp [hlist]
    by_cases hover : budget ≤ 0
    · refine ⟨_, by simp only [taskletStep, if_neg hne, if_pos (Or.inl hover)]; rfl, ?_, ?_⟩
      · refine ⟨h.weight, h.quota, .inl hlist, h.order, by simp [Pc.isIdle], .inr ?_⟩
        refine ⟨rfl, hlist, ?_⟩
        have hzero : budget = 0 := le_antisymm hover hbudget
        simpa [hzero, spent] using haccount
      · simp [toGo, detour, Pc.inHand, hover]
    · have hgo : ¬(budget ≤ 0 ∨ 1 < startTime - startTime) :=
        not_or_intro hover (not_late startTime)
      refine ⟨_, by simp only [taskletStep, if_neg hne, if_neg hgo]; rfl, ?_, ?_⟩
      · exact h.move rfl rfl rfl ⟨rfl, by omega, hlist⟩
      · simp [toGo, detour, Pc.inHand, hover, hlist]
  · refine ⟨_, by simp only [taskletStep, if_pos hlist]; rfl, ?_, ?_⟩
    · refine ⟨h.weight, h.quota, .inr ⟨hlist, hqueue⟩, h.order, by simp [Pc.isIdle],
        .inl ⟨hqueue, ?_⟩⟩
      simp only [spent] at haccount ⊢
      omega
    · simp [toGo, detour, Pc.inHand, hlist]

theorem goesOn_choose (h : Spending now cpu₀ ⟨soft, .choose budget startTime, accepted, handed⟩) :
    GoesOn now cpu₀ ⟨soft, .choose budget startTime, accepted, handed⟩ := by
  have hstanding : Standing now _ soft _ := h.standing
  obtain ⟨rfl, hbudget, hlist⟩ := hstanding
  have hhead : soft.pollList.head? = some blogDevPtr := by simp [hlist]
  by_cases hquota : soft.blogDev.quota ≤ 0
  · refine ⟨_, by simp only [taskletStep, if_pos hhead, if_pos hquota]; rfl, ?_, ?_⟩
    · refine h.move rfl rfl rfl ⟨rfl, hbudget.le, rfl, hlist, fun hpos => ?_⟩
      exact absurd hpos hquota.not_gt
    · simp [toGo, detour, Pc.inHand]
  · refine ⟨_, by simp only [taskletStep, if_pos hhead, if_neg hquota]; rfl, ?_, ?_⟩
    · refine h.move rfl rfl (by simp [Pc.budget, Pc.unpaid]) ?_
      exact ⟨hlist, rfl, rfl, rfl, le_refl _, by simp only; omega⟩
    · simp [toGo, detour, Pc.inHand]

theorem goesOn_fetch (h : Spending now cpu₀ ⟨soft, .fetch poll, accepted, handed⟩) :
    GoesOn now cpu₀ ⟨soft, .fetch poll, accepted, handed⟩ := by
  have hturn : InTurn now soft poll := h.standing
  cases hqueue : soft.inputPktQueue with
  | nil =>
      refine ⟨_, by simp only [taskletStep, hqueue]; rfl, ?_, ?_⟩
      · exact h.move rfl rfl rfl ⟨hturn, hqueue⟩
      · simp [toGo, detour, Pc.inHand]
  | cons skb rest =>
      refine ⟨_, by simp only [taskletStep, hqueue]; rfl, ?_, ?_⟩
      · refine ⟨h.weight, h.quota, .inl hturn.listed, ?_, fun _ => h.account rfl, ?_⟩
        · have horder := h.order
          simpa [Pc.inHand, hqueue] using horder
        · exact ⟨hturn.listed, hturn.actionStart, hturn.startTime, hturn.share, hturn.work,
            hturn.below⟩
      · simp only [toGo, detour, Pc.inHand, hqueue, List.length_cons, List.length_nil]
        omega

theorem goesOn_receive {skb : φ}
    (h : Spending now cpu₀ ⟨soft, .receive poll skb, accepted, handed⟩) :
    GoesOn now cpu₀ ⟨soft, .receive poll skb, accepted, handed⟩ := by
  have hturn : InTurn now soft poll := h.standing
  refine ⟨_, rfl, ⟨h.weight, h.quota, h.listed, ?_, fun _ => ?_, hturn⟩, ?_⟩
  · have horder := h.order
    simpa [Pc.inHand] using horder
  · have haccount := h.account rfl
    simp only [spent, Pc.budget, Pc.unpaid, List.length_append, List.length_singleton]
      at haccount ⊢
    omega
  · simp only [toGo, detour, Pc.inHand, List.length_cons, List.length_nil]
    omega

theorem goesOn_check (h : Spending now cpu₀ ⟨soft, .check poll, accepted, handed⟩) :
    GoesOn now cpu₀ ⟨soft, .check poll, accepted, handed⟩ := by
  obtain ⟨hlist, hact, hstart, hshare, hwork, hbelow⟩ : InTurn now soft poll := h.standing
  by_cases hdone : poll.quota ≤ poll.work + 1
  · refine ⟨_, by simp only [taskletStep, if_pos (Or.inl hdone)]; rfl, ?_, ?_⟩
    · refine ⟨h.weight, fun _ => ?_, h.listed, h.order, fun _ => ?_, hact, ?_, rfl, hlist, ?_⟩
      · simp only
        omega
      · have haccount := h.account rfl
        simp only [spent, Pc.budget, Pc.unpaid] at haccount ⊢
        omega
      · omega
      · simp only
        omega
    · simp only [toGo, detour, Pc.inHand]
      omega
  · have hgo : ¬(poll.quota ≤ poll.work + 1 ∨ 1 < now - poll.startTime) := by
      rw [hstart]
      exact not_or_intro hdone (not_late now)
    refine ⟨_, by simp only [taskletStep, if_neg hgo]; rfl, ?_, ?_⟩
    · refine h.move rfl rfl rfl ⟨hlist, hact, hstart, hshare, ?_, ?_⟩
      · simp only
        omega
      · simp only
        omega
    · simp [toGo, detour, Pc.inHand]

theorem goesOn_jobDone (h : Spending now cpu₀ ⟨soft, .jobDone poll, accepted, handed⟩) :
    GoesOn now cpu₀ ⟨soft, .jobDone poll, accepted, handed⟩ := by
  have hstanding : Standing now _ soft _ := h.standing
  obtain ⟨⟨hlist, hact, hstart, hshare, hwork, hbelow⟩, hqueue⟩ := hstanding
  refine ⟨_, rfl, ⟨h.weight, fun _ => ?_, .inr ⟨?_, hqueue⟩, h.order, fun _ => ?_, hact, ?_, ?_⟩,
    ?_⟩
  · simp only
    omega
  · simp [hlist]
  · have haccount := h.account rfl
    simp only [spent, Pc.budget, Pc.unpaid] at haccount ⊢
    omega
  · omega
  · simp [hlist]
  · simp only [toGo, detour, Pc.inHand, hqueue]
    omega

theorem goesOn_requeue {dev : DevPtr}
    (h : Spending now cpu₀ ⟨soft, .requeue budget startTime dev, accepted, handed⟩) :
    GoesOn now cpu₀ ⟨soft, .requeue budget startTime dev, accepted, handed⟩ := by
  have hstanding : Standing now _ soft _ := h.standing
  obtain ⟨rfl, hbudget, rfl, hlist, hearly⟩ := hstanding
  obtain ⟨hrounds, hnonneg⟩ := refill_rounds soft.blogDev h.weight
  refine ⟨_, rfl, ⟨?_, fun h₀ => hnonneg (h.quota h₀), .inl ?_, h.order, fun _ => h.account rfl,
    rfl, hbudget⟩, ?_⟩
  · simpa [BlogDev.refill] using h.weight
  · simp [hlist]
  · simp only [toGo, detour, Pc.inHand]
    by_cases hquota : 0 < soft.blogDev.quota
    · simp only [hearly hquota, le_refl, or_true, if_true]
      omega
    · split_ifs <;> omega

theorem goesOn_leave (h : Spending now cpu₀ ⟨soft, .leave budget startTime, accepted, handed⟩) :
    GoesOn now cpu₀ ⟨soft, .leave budget startTime, accepted, handed⟩ := by
  have hstanding : Standing now _ soft _ := h.standing
  obtain ⟨rfl, hbudget, hlist⟩ := hstanding
  refine ⟨_, rfl, h.move rfl rfl rfl ⟨rfl, hbudget⟩, ?_⟩
  simp [toGo, detour, Pc.inHand, hlist]

theorem actionStep_progress (h : Spending now cpu₀ cpu) (hbusy : cpu.pc.isIdle = false) :
    ∃ cpu', actionStep now cpu = some cpu' ∧ Spending now cpu₀ cpu' ∧ toGo cpu' < toGo cpu := by
  have hstep : actionStep now cpu = taskletStep now cpu := by simp [actionStep, hbusy]
  rw [hstep]
  obtain ⟨soft, pc, accepted, handed⟩ := cpu
  cases pc with
  | idle => simp [Pc.isIdle] at hbusy
  | scan => exact goesOn_scan h
  | choose => exact goesOn_choose h
  | fetch => exact goesOn_fetch h
  | receive => exact goesOn_receive h
  | check => exact goesOn_check h
  | jobDone => exact goesOn_jobDone h
  | requeue => exact goesOn_requeue h
  | leave => exact goesOn_leave h

theorem Spending.step {cpu' : Cpu φ} (h : Spending now cpu₀ cpu)
    (hstep : actionStep now cpu = some cpu') : Spending now cpu₀ cpu' := by
  cases hbusy : cpu.pc.isIdle with
  | true => simp [actionStep, hbusy] at hstep
  | false =>
      obtain ⟨next, hnext, hspend, _⟩ := actionStep_progress h hbusy
      obtain rfl := Option.some.inj (hnext.symm.trans hstep)
      exact hspend

end Step

/-! ## The run -/

theorem Spending.begin (now : Jiffies) {cpu : Cpu φ}
    (hweight : 0 < cpu.soft.blogDev.weight)
    (hlisted : cpu.soft.pollList = [blogDevPtr] ∨
      (cpu.soft.pollList = [] ∧ cpu.soft.inputPktQueue = [])) :
    Spending now cpu { cpu with
      soft := { cpu.soft with rxTask := false }, pc := .scan meshdevMaxBacklog now } where
  weight := hweight
  quota := id
  listed := hlisted
  order := by simp [Pc.inHand]
  account := by simp [spent, Pc.budget, Pc.unpaid]
  standing := ⟨rfl, Int.natCast_nonneg _⟩

theorem Spending.budget_nonneg {now : Jiffies} {cpu₀ cpu : Cpu φ} (h : Spending now cpu₀ cpu) :
    0 ≤ cpu.pc.budget := by
  have hstanding := h.standing
  have hturn : ∀ poll : Poll, InTurn now cpu.soft poll → 0 ≤ poll.budget := by
    intro poll hturn
    have hshare := hturn.share
    have hwork := hturn.work
    have hbelow := hturn.below
    omega
  cases hpc : cpu.pc with
  | idle => exact le_refl _
  | scan =>
      rw [hpc] at hstanding
      exact hstanding.2
  | requeue | leave =>
      rw [hpc] at hstanding
      exact hstanding.2.1
  | choose =>
      rw [hpc] at hstanding
      exact hstanding.2.1.le
  | fetch poll | receive poll | check poll =>
      rw [hpc] at hstanding
      exact hturn poll hstanding
  | jobDone poll =>
      rw [hpc] at hstanding
      exact hturn poll hstanding.1

theorem Spending.handed_eq {now : Jiffies} {cpu₀ cpu : Cpu φ} (h : Spending now cpu₀ cpu)
    (hidle : cpu.pc = .idle) :
    cpu.handed = cpu₀.handed ++ cpu₀.soft.inputPktQueue.take meshdevMaxBacklog ∧
      cpu.soft.inputPktQueue = cpu₀.soft.inputPktQueue.drop meshdevMaxBacklog := by
  have horder := h.order
  have hstanding := h.standing
  rw [hidle] at horder hstanding
  simp only [Pc.inHand, List.append_nil] at horder
  simp only [Standing, spent] at hstanding
  rcases hstanding with ⟨hqueue, hle⟩ | ⟨_, _, hspent⟩
  · rw [hqueue, List.append_nil] at horder
    have hlen : cpu₀.soft.inputPktQueue.length ≤ meshdevMaxBacklog := by
      rw [horder, List.length_append] at hle
      omega
    rw [List.take_of_length_le hlen, List.drop_of_length_le hlen]
    exact ⟨horder, hqueue⟩
  · have hlen : cpu.handed.length = cpu₀.handed.length + meshdevMaxBacklog := by omega
    constructor
    · calc cpu.handed = (cpu.handed ++ cpu.soft.inputPktQueue).take cpu.handed.length :=
            List.take_left.symm
        _ = cpu₀.handed ++ cpu₀.soft.inputPktQueue.take meshdevMaxBacklog := by
            rw [horder, hlen, List.take_length_add_append]
    · calc cpu.soft.inputPktQueue
          = (cpu.handed ++ cpu.soft.inputPktQueue).drop cpu.handed.length := List.drop_left.symm
        _ = cpu₀.soft.inputPktQueue.drop meshdevMaxBacklog := by
            rw [horder, hlen, List.drop_length_add_append]

/-- What one run of the tasklet from `cpu` does, at `now` and without interrupts. -/
structure OneRun (now : Jiffies) (cpu entry done : Cpu φ) (steps : ℕ) : Prop where
  begins : taskletStep now cpu = some entry
  ends : finish actionStep (List.replicate steps now) entry = some done
  idle : done.pc = .idle
  handed : done.handed = cpu.handed ++ cpu.soft.inputPktQueue.take meshdevMaxBacklog
  count : done.handed.length =
    cpu.handed.length + min cpu.soft.inputPktQueue.length meshdevMaxBacklog
  left : done.soft.inputPktQueue = cpu.soft.inputPktQueue.drop meshdevMaxBacklog
  nonneg : 0 ≤ cpu.soft.blogDev.quota → ∀ mid,
    Visits actionStep entry (List.replicate steps now) mid →
      0 ≤ mid.pc.budget ∧ 0 ≤ mid.soft.blogDev.quota
  rescheduled : done.soft.inputPktQueue ≠ [] →
    done.soft.rxTask = true ∧ done.soft.pollList = [blogDevPtr]

/-- The scheduled tasklet, with the backlog device on the poll list whenever a frame waits,
runs to its end and hands over what the budget allows. -/
theorem rx_action_spends_budget (now : Jiffies) {cpu : Cpu φ} (hidle : cpu.pc = .idle)
    (htask : cpu.soft.rxTask = true) (hweight : 0 < cpu.soft.blogDev.weight)
    (hlisted : cpu.soft.pollList = [blogDevPtr] ∨
      (cpu.soft.pollList = [] ∧ cpu.soft.inputPktQueue = [])) :
    ∃ entry done steps, OneRun now cpu entry done steps := by
  have hbegin := Spending.begin now hweight hlisted
  have hprog : ∀ c : Cpu φ, Spending now cpu c → ¬c.pc.isIdle = true →
      ∃ c', actionStep now c = some c' ∧ Spending now cpu c' ∧ toGo c' < toGo c := by
    intro c hc hbusy
    exact actionStep_progress hc (by simpa using hbusy)
  obtain ⟨steps, done, hends, hdone, hover⟩ := finish_of_measure toGo now hprog hbegin
  have hover' : done.pc = .idle := by
    cases hpc : done.pc with
    | idle => rfl
    | _ => simp [hpc, Pc.isIdle] at hover
  obtain ⟨hhanded, hleft⟩ := hdone.handed_eq hover'
  have hcount : done.handed.length =
      cpu.handed.length + min cpu.soft.inputPktQueue.length meshdevMaxBacklog := by
    rw [hhanded, List.length_append, List.length_take, Nat.min_comm]
  refine ⟨_, done, steps, by simp [taskletStep, hidle, htask], hends, hover', hhanded, hcount,
    hleft, ?_, ?_⟩
  · intro hquota mid hmid
    have hsame : ∀ c : Cpu φ,
        Throughout actionStep (fun e _ => e = now) (List.replicate steps now) c :=
      throughout_of_forall fun e he _ => List.eq_of_mem_replicate he
    have hkeep : ∀ {e : Jiffies} {c c' : Cpu φ}, Spending now cpu c → e = now →
        actionStep e c = some c' → Spending now cpu c' := by
      rintro e c c' hc rfl hc'
      exact hc.step hc'
    have hspending : Spending now cpu mid := hmid.invariant_of_throughout hkeep (hsame _) hbegin
    exact ⟨hspending.budget_nonneg, hspending.quota hquota⟩
  · intro hwait
    have hstanding := hdone.standing
    rw [hover'] at hstanding
    rcases hstanding with ⟨hempty, _⟩ | ⟨hresched, hlist, _⟩
    · exact absurd hempty hwait
    · exact ⟨hresched, hlist⟩

/-- A CPU with more frames waiting than the budget, 64 of them to a turn. -/
def crowded : Cpu ℕ :=
  { (Cpu.start : Cpu ℕ) with
    soft := { (meshifRxSchedule .init : SoftmeshData ℕ) with inputPktQueue := List.range 301 } }

/-- Of 301 frames the first 300 are handed over, and the tasklet is scheduled again. -/
theorem rx_action_spends_budget_crowded : ∃ done : Cpu ℕ,
    done.handed = List.range 300 ∧ done.soft.inputPktQueue = [300] ∧ done.soft.rxTask = true := by
  obtain ⟨entry, done, steps, hrun⟩ :=
    rx_action_spends_budget 0 (rfl : crowded.pc = .idle) rfl (by decide) (.inl rfl)
  have hleft : done.soft.inputPktQueue = [300] := hrun.left.trans (by decide +kernel)
  have hhanded : done.handed = List.range 300 := hrun.handed.trans (by decide +kernel)
  exact ⟨done, hhanded, hleft, (hrun.rescheduled (by simp [hleft])).1⟩

end Mesh
end WirelessMesh
