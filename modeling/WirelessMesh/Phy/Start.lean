import WirelessMesh.Kernel
import WirelessMesh.Lib.TailQueue
import Mathlib.Data.Int.Notation
import Mathlib.Data.List.Perm.Basic

/-!
# The start of a transmission

The driver takes a free buffer for each frame it gives to the hardware. Management frames
come first. A buffer that is not used goes back to the free ones, and a data frame that is
not sent is freed when the function returns. `ath_tx_start` takes over the buffer and the
frame when it succeeds; when it fails it frees the frame and leaves the buffer.
-/

namespace WirelessMesh
namespace Phy

inductive OpMode
  | sta
  | ibss
  | ahdemo
  | hostap
  | monitor
deriving DecidableEq

/-- The direction in `i_fc[1]`. -/
inductive FrameDir
  | nods
  | tods
  | fromds
  | dstods
deriving DecidableEq

/-- What is read and written of a data frame: its header, and `M_PWR_SAV` in its control
block. -/
structure DataFrame (α : Type*) where
  addr1 : α
  addr2 : α
  addr3 : α
  dir : FrameDir
  pwrSav : Bool
deriving DecidableEq

structure MgmtFrame (ν : Type*) where
  node : Option ν

structure Ieee80211com (α ν : Type*) where
  /-- `ic_state` is `IEEE80211_S_RUN`. -/
  run : Bool
  opmode : OpMode
  bssid : α
  findTxnode : α → Option ν
  /-- `IEEE80211_NODE_PWR_MGT`. -/
  pwrMgt : ν → Bool
  /-- `ieee80211_classify` fails. -/
  classify : DataFrame α → ν → Bool

inductive Settlement
  | putBack
  | handedOver
deriving DecidableEq

/-- One round of the loop: the buffer that was taken, and what happened to it. -/
structure TxRound (β : Type*) where
  buf : β
  settled : List Settlement
deriving DecidableEq

inductive DataUse (α : Type*)
  | saved
  | handedOver (frame : DataFrame α)
  | freedByTx
  | freed
deriving DecidableEq

/-- The state of `_phy_start`, with a log of the buffers and of the data frame. -/
structure TxState (α ν β : Type*) where
  txbuf : TailQueue β
  mgtq : List (MgmtFrame ν)
  skb : Option (DataFrame α)
  /-- The queue of the upper layer is stopped. -/
  stopped : Bool
  /-- The nodes that were given back. -/
  released : List ν
  /-- The calls of `ath_tx_start`. -/
  calls : ℕ
  rounds : List (TxRound β)
  uses : List (DataUse α)

section Model

variable {α ν β : Type*} [DecidableEq β]

namespace TxState

def settle (st : TxState α ν β) (bf : β) (settled : List Settlement) : TxState α ν β :=
  { st with rounds := st.rounds ++ [⟨bf, settled⟩] }

def putBack (st : TxState α ν β) (bf : β) : TxState α ν β :=
  { st with txbuf := st.txbuf.insertTail bf }

/-- The macro `CLEANUP`. -/
def cleanup (st : TxState α ν β) (bf : β) (ni : Option ν) : TxState α ν β :=
  { st.putBack bf with released := st.released ++ ni.toList }

def use (st : TxState α ν β) (use : DataUse α) : TxState α ν β :=
  { st with skb := none, uses := st.uses ++ [use] }

/-- `ath_tx_start` for the data frame, and whether the loop goes on. `before` is what has
happened to the buffer in this round. -/
def sendData (ok : Bool) (st : TxState α ν β) (bf : β) (ni : ν) (before : List Settlement)
    (frame : DataFrame α) : TxState α ν β × Bool :=
  let st := { st with calls := st.calls + 1 }
  if ok then ((st.use (.handedOver frame)).settle bf (before ++ [.handedOver]), false)
  else (((st.use .freedByTx).cleanup bf (some ni)).settle bf (before ++ [.putBack]), true)

/-- A round without a management frame. The `break` of the last case only leaves the
`switch`. -/
def dataRound (ic : Ieee80211com α ν) (ok : Bool) (st : TxState α ν β) (bf : β)
    (skb : DataFrame α) : TxState α ν β × Bool :=
  if !ic.run then ((st.putBack bf).settle bf [.putBack], false)
  else
    match ic.findTxnode skb.addr1 with
    | none => ((st.cleanup bf none).settle bf [.putBack], false)
    | some ni =>
        if ic.pwrMgt ni && !skb.pwrSav then
          (((st.use .saved).cleanup bf (some ni)).settle bf [.putBack], false)
        else if ic.classify skb ni then ((st.cleanup bf (some ni)).settle bf [.putBack], false)
        else
          match ic.opmode with
          | .ibss | .ahdemo =>
              st.sendData ok bf ni [] { skb with dir := .nods, addr3 := ic.bssid }
          | .hostap => st.sendData ok bf ni [] { skb with dir := .fromds, addr3 := skb.addr2 }
          | .sta | .monitor => (st.cleanup bf (some ni)).sendData ok bf ni [.putBack] skb

/-- A round with a management frame. When it cannot be sent, the data frame is forgotten. -/
def mgmtRound (ok : Bool) (st : TxState α ν β) (bf : β) (frame : MgmtFrame ν) :
    TxState α ν β × Bool :=
  let st := { st with calls := st.calls + 1 }
  if ok then (st.settle bf [.handedOver], true)
  else (({ st with skb := none }.cleanup bf frame.node).settle bf [.putBack], true)

/-- The first free buffer is taken. The upper layer is stopped when it was the last one. -/
def take (st : TxState α ν β) : TxState α ν β :=
  { st with
    txbuf := st.txbuf.removeHead
    stopped := st.stopped || st.txbuf.removeHead.isEmpty }

/-- The body of the loop of `_phy_start`: the state, and whether the loop goes on. -/
def startRound (ic : Ieee80211com α ν) (outcomes : ℕ → Bool) (st : TxState α ν β) :
    TxState α ν β × Bool :=
  match st.txbuf.first with
  | none => ({ st with stopped := true }, false)
  | some bf =>
      match st.mgtq, st.skb with
      | frame :: mgtq, _ => { st.take with mgtq }.mgmtRound (outcomes st.calls) bf frame
      | [], none => ((st.take.putBack bf).settle bf [.putBack], false)
      | [], some skb => st.take.dataRound ic (outcomes st.calls) bf skb

def startLoop (ic : Ieee80211com α ν) (outcomes : ℕ → Bool) :
    ℕ → TxState α ν β → Option (TxState α ν β)
  | 0, _ => none
  | fuel + 1, st =>
      let (st, again) := st.startRound ic outcomes
      if again then startLoop ic outcomes fuel st else some st

def freeData (st : TxState α ν β) : TxState α ν β :=
  if st.skb.isSome then st.use .freed else st

end TxState

/-- `_phy_start`, within a number of rounds. `up` is a device that runs and is valid. -/
def phyStart (up : Bool) (ic : Ieee80211com α ν) (outcomes : ℕ → Bool) (fuel : ℕ)
    (st : TxState α ν β) : Option (ℤ × TxState α ν β) :=
  if !up then some (-enetdown, st)
  else (st.startLoop ic outcomes fuel).map fun st => (0, st.freeData)

/-- The state in which `_phy_start` is called. -/
def TxState.enter (txbuf : TailQueue β) (mgtq : List (MgmtFrame ν)) (skb : Option (DataFrame α))
    (stopped : Bool) : TxState α ν β :=
  ⟨txbuf, mgtq, skb, stopped, [], 0, [], []⟩

def TxState.handed (st : TxState α ν β) : List β :=
  (st.rounds.filter fun round => .handedOver ∈ round.settled).map TxRound.buf

/-- Buffers and data frame are conserved: a buffer that was taken is put back once or handed
over, the free ones and the ones handed over are those of the start, and a data frame is
consumed once. -/
structure Conserves (bufs : List β) (skb : Option (DataFrame α)) (ret : ℤ)
    (st : TxState α ν β) : Prop where
  settled : ∀ round ∈ st.rounds, round.settled = [.putBack] ∨ round.settled = [.handedOver]
  held : ∃ free, st.txbuf.Holds free ∧ (free ++ st.handed).Perm bufs
  consumed : ret = 0 → skb.isSome = true → st.uses.length = 1

/-- The data frame comes as far as to `ath_tx_start`. -/
def Ieee80211com.Transmits (ic : Ieee80211com α ν) (skb : DataFrame α) : Prop :=
  ic.run = true ∧ ∃ ni, ic.findTxnode skb.addr1 = some ni ∧
    (ic.pwrMgt ni && !skb.pwrSav) = false ∧ ic.classify skb ni = false

/-- The modes that `_phy_start` knows. -/
def OpMode.supported : OpMode → Bool
  | .ibss | .ahdemo | .hostap => true
  | .sta | .monitor => false

/-- The management frames for which there is a buffer are sent, and if a buffer is left for
the data frame, it is not sent in another mode than these. -/
structure SendsWell (ic : Ieee80211com α ν) (outcomes : ℕ → Bool) (bufs mgmt : ℕ)
    (skb : DataFrame α) : Prop where
  sent : ∀ i < min mgmt bufs, outcomes i = true
  mode : mgmt < bufs → ic.Transmits skb → ic.opmode.supported = true

end Model

/-! ## One round -/

section Round

variable {α ν β : Type*} {ic : Ieee80211com α ν} {outcomes : ℕ → Bool}
  {st st' : TxState α ν β} {bufs free : List β} {bf : β}

structure Balanced (bufs free : List β) (st : TxState α ν β) : Prop where
  settled : ∀ round ∈ st.rounds, round.settled = [.putBack] ∨ round.settled = [.handedOver]
  holds : st.txbuf.Holds free
  perm : (free ++ st.handed).Perm bufs

theorem handed_append {settled : List Settlement}
    (hrounds : st'.rounds = st.rounds ++ [⟨bf, settled⟩]) :
    st'.handed = st.handed ++ if .handedOver ∈ settled then [bf] else [] := by
  unfold TxState.handed
  rw [hrounds, List.filter_append, List.map_append]
  split_ifs with h <;> simp [h]

theorem settled_append {settled : List Settlement} (h : Balanced bufs free st)
    (hrounds : st'.rounds = st.rounds ++ [⟨bf, settled⟩])
    (hsettled : settled = [.putBack] ∨ settled = [.handedOver]) :
    ∀ round ∈ st'.rounds, round.settled = [.putBack] ∨ round.settled = [.handedOver] := by
  rw [hrounds]
  intro round hround
  rcases List.mem_append.mp hround with hround | hround
  · exact h.settled round hround
  · rw [List.mem_singleton.mp hround]
    exact hsettled

theorem Balanced.congr (h : Balanced bufs free st) (htxbuf : st'.txbuf = st.txbuf)
    (hrounds : st'.rounds = st.rounds) : Balanced bufs free st' := by
  refine ⟨hrounds ▸ h.settled, htxbuf ▸ h.holds, ?_⟩
  unfold TxState.handed
  rw [hrounds]
  exact h.perm

theorem Balanced.hand (h : Balanced bufs (bf :: free) st) (htxbuf : st'.txbuf = st.take.txbuf)
    (hrounds : st'.rounds = st.rounds ++ [⟨bf, [.handedOver]⟩]) : Balanced bufs free st' where
  settled := settled_append h hrounds (.inr rfl)
  holds := by
    rw [htxbuf]
    exact h.holds.removeHead
  perm := by
    rw [handed_append hrounds, if_pos (by decide)]
    refine List.Perm.trans ?_ h.perm
    rw [← List.append_assoc]
    exact List.perm_append_singleton bf (free ++ st.handed)

theorem Balanced.conserves {skb : DataFrame α} (h : Balanced bufs free st)
    (hused : st.freeData.uses.length = 1) : Conserves bufs (some skb) 0 st.freeData := by
  have hfree : st.freeData.rounds = st.rounds ∧ st.freeData.txbuf = st.txbuf := by
    unfold TxState.freeData
    split_ifs <;> exact ⟨rfl, rfl⟩
  have hbalanced := h.congr hfree.2 hfree.1
  exact ⟨hbalanced.settled, ⟨free, hbalanced.holds, hbalanced.perm⟩, fun _ _ => hused⟩

variable [DecidableEq β]

theorem Balanced.put (h : Balanced bufs (bf :: free) st)
    (htxbuf : st'.txbuf = st.take.txbuf.insertTail bf)
    (hrounds : st'.rounds = st.rounds ++ [⟨bf, [.putBack]⟩]) :
    Balanced bufs (free ++ [bf]) st' where
  settled := settled_append h hrounds (.inl rfl)
  holds := by
    rw [htxbuf]
    exact h.holds.removeHead.insertTail (List.nodup_cons.mp h.holds.nodup).1
  perm := by
    rw [handed_append hrounds, if_neg (by decide), List.append_nil]
    refine List.Perm.trans ?_ h.perm
    rw [List.append_assoc]
    exact List.perm_middle

def Ends (ic : Ieee80211com α ν) (outcomes : ℕ → Bool) (st : TxState α ν β) (n : ℕ)
    (st' : TxState α ν β) : Prop :=
  ∀ fuel, n ≤ fuel → st.startLoop ic outcomes fuel = some st'

theorem Ends.mono {n m : ℕ} (h : Ends ic outcomes st n st') (hle : n ≤ m) :
    Ends ic outcomes st m st' :=
  fun fuel hfuel => h fuel (Nat.le_trans hle hfuel)

theorem ends_of_leave (h : st.startRound ic outcomes = (st', false)) :
    Ends ic outcomes st 1 st' := by
  intro fuel hfuel
  obtain ⟨n, rfl⟩ := Nat.exists_eq_add_of_le' hfuel
  simp [TxState.startLoop, h]

theorem ends_of_again {st₁ : TxState α ν β} {n : ℕ}
    (h : st.startRound ic outcomes = (st₁, true)) (hends : Ends ic outcomes st₁ n st') :
    Ends ic outcomes st (n + 1) st' := by
  intro fuel hfuel
  obtain ⟨m, rfl⟩ : ∃ m, fuel = m + 1 := ⟨fuel - 1, by omega⟩
  simp only [TxState.startLoop, h, if_true]
  exact hends m (Nat.le_of_succ_le_succ hfuel)

theorem startRound_nil (h : st.txbuf.Holds []) :
    st.startRound ic outcomes = ({ st with stopped := true }, false) := by
  have hfirst : st.txbuf.first = none := h.first_eq
  simp only [TxState.startRound, hfirst]

variable (ic outcomes) in
theorem startRound_mgmt {frame : MgmtFrame ν} {mgtq : List (MgmtFrame ν)}
    (h : st.txbuf.Holds (bf :: free)) (hmgtq : st.mgtq = frame :: mgtq) :
    st.startRound ic outcomes = { st.take with mgtq }.mgmtRound (outcomes st.calls) bf frame := by
  have hfirst : st.txbuf.first = some bf := h.first_eq
  simp only [TxState.startRound, hfirst, hmgtq]

theorem startRound_idle (h : st.txbuf.Holds (bf :: free)) (hmgtq : st.mgtq = [])
    (hskb : st.skb = none) :
    st.startRound ic outcomes = ((st.take.putBack bf).settle bf [.putBack], false) := by
  have hfirst : st.txbuf.first = some bf := h.first_eq
  simp only [TxState.startRound, hfirst, hmgtq, hskb]

variable (ic outcomes) in
theorem startRound_data {skb : DataFrame α} (h : st.txbuf.Holds (bf :: free))
    (hmgtq : st.mgtq = []) (hskb : st.skb = some skb) :
    st.startRound ic outcomes = st.take.dataRound ic (outcomes st.calls) bf skb := by
  have hfirst : st.txbuf.first = some bf := h.first_eq
  simp only [TxState.startRound, hfirst, hmgtq, hskb]

/-! ## Whole calls -/

theorem mgmt_again {frame : MgmtFrame ν} {mgtq : List (MgmtFrame ν)} (ic : Ieee80211com α ν)
    (outcomes : ℕ → Bool) (h : Balanced bufs (bf :: free) st) (hmgtq : st.mgtq = frame :: mgtq) :
    ∃ st₁, st.startRound ic outcomes = (st₁, true) ∧ st₁.mgtq = mgtq ∧
      st₁.calls = st.calls + 1 ∧ st₁.uses = st.uses ∧
      if outcomes st.calls then st₁.skb = st.skb ∧ Balanced bufs free st₁
      else st₁.skb = none ∧ Balanced bufs (free ++ [bf]) st₁ := by
  have hround := startRound_mgmt ic outcomes h.holds hmgtq
  cases hok : outcomes st.calls with
  | true =>
      rw [hok] at hround
      exact ⟨_, hround, rfl, rfl, rfl, rfl, h.hand rfl rfl⟩
  | false =>
      rw [hok] at hround
      exact ⟨_, hround, rfl, rfl, rfl, rfl, h.put rfl rfl⟩

theorem ends_without_data (ic : Ieee80211com α ν) (outcomes : ℕ → Bool)
    (h : Balanced bufs free st) (hskb : st.skb = none) :
    ∃ st', Ends ic outcomes st (st.mgtq.length + 1) st' ∧ st'.skb = none ∧
      st'.uses = st.uses ∧ ∃ free', Balanced bufs free' st' := by
  induction hmgtq : st.mgtq generalizing st free with
  | nil =>
      cases free with
      | nil => exact ⟨_, ends_of_leave (startRound_nil h.holds), hskb, rfl, [], h.congr rfl rfl⟩
      | cons bf free =>
          exact ⟨_, ends_of_leave (startRound_idle h.holds hmgtq hskb), hskb, rfl, _,
            h.put rfl rfl⟩
  | cons frame mgtq ih =>
      cases free with
      | nil =>
          exact ⟨_, (ends_of_leave (startRound_nil h.holds)).mono (by omega), hskb, rfl, [],
            h.congr rfl rfl⟩
      | cons bf free =>
          obtain ⟨st₁, hround, hmgtq', -, huses, hcases⟩ := mgmt_again ic outcomes h hmgtq
          have hnext : st₁.skb = none ∧ ∃ free', Balanced bufs free' st₁ := by
            split_ifs at hcases
            · exact ⟨hcases.1.trans hskb, _, hcases.2⟩
            · exact ⟨hcases.1, _, hcases.2⟩
          obtain ⟨hskb', free', hbalanced⟩ := hnext
          obtain ⟨st', hends, hnone, huses', hfree⟩ := ih hbalanced hskb' hmgtq'
          exact ⟨st', ends_of_again hround hends, hnone, huses'.trans huses, hfree⟩

/-- A data frame that does not come to `ath_tx_start`: its buffer is put back, and the frame
is left to the end or to the power save queue. -/
theorem data_refused {skb : DataFrame α} (outcomes : ℕ → Bool)
    (h : Balanced bufs (bf :: free) st) (hmgtq : st.mgtq = []) (hskb : st.skb = some skb)
    (hno : ¬ic.Transmits skb) :
    ∃ st', st.startRound ic outcomes = (st', false) ∧ Balanced bufs (free ++ [bf]) st' ∧
      (st'.skb = some skb ∧ st'.uses = st.uses ∨
        st'.skb = none ∧ st'.uses = st.uses ++ [.saved]) := by
  rw [startRound_data ic outcomes h.holds hmgtq hskb]
  unfold TxState.dataRound
  by_cases hrun : ic.run = true
  · rw [if_neg (by simp [hrun])]
    cases hnode : ic.findTxnode skb.addr1 with
    | none => exact ⟨_, rfl, h.put rfl rfl, .inl ⟨hskb, rfl⟩⟩
    | some ni =>
        cases hsave : ic.pwrMgt ni && !skb.pwrSav with
        | true => exact ⟨_, if_pos hsave, h.put rfl rfl, .inr ⟨rfl, rfl⟩⟩
        | false =>
            have hclassify : ic.classify skb ni = true := by
              by_contra hfalse
              exact hno ⟨hrun, ni, hnode, hsave, Bool.not_eq_true _ ▸ hfalse⟩
            simp only [hsave, hclassify, if_true]
            exact ⟨_, rfl, h.put rfl rfl, .inl ⟨hskb, rfl⟩⟩
  · rw [if_pos (by simp [hrun])]
    exact ⟨_, rfl, h.put rfl rfl, .inl ⟨hskb, rfl⟩⟩

theorem dataRound_transmits {skb : DataFrame α} (ok : Bool) (st : TxState α ν β) (bf : β)
    (h : ic.Transmits skb) :
    ∃ ni frame, st.dataRound ic ok bf skb =
      if ic.opmode.supported then st.sendData ok bf ni [] frame
      else (st.cleanup bf (some ni)).sendData ok bf ni [.putBack] frame := by
  obtain ⟨hrun, ni, hnode, hsave, hclassify⟩ := h
  unfold TxState.dataRound
  simp only [hrun, hnode, hsave, hclassify, Bool.not_true, if_false, Bool.false_eq_true]
  cases hmode : ic.opmode with
  | ibss | ahdemo | hostap => exact ⟨ni, _, rfl⟩
  | sta | monitor => exact ⟨ni, skb, rfl⟩

theorem sendsWell_succ {skb : DataFrame α} {outcomes : ℕ → Bool} {n k : ℕ} :
    SendsWell ic outcomes (n + 1) (k + 1) skb ↔
      outcomes 0 = true ∧ SendsWell ic (fun i => outcomes (i + 1)) n k skb := by
  constructor
  · rintro ⟨hsent, hmode⟩
    refine ⟨hsent 0 (by omega), fun i hi => hsent (i + 1) (by omega), ?_⟩
    exact fun hlt => hmode (Nat.succ_lt_succ hlt)
  · rintro ⟨hfirst, hsent, hmode⟩
    refine ⟨?_, fun hlt => hmode (Nat.lt_of_succ_lt_succ hlt)⟩
    intro i hi
    cases i with
    | zero => exact hfirst
    | succ i => exact hsent i (by omega)

theorem ends_idle (ic : Ieee80211com α ν) (outcomes : ℕ → Bool) (hmgtq : st.mgtq = [])
    (hskb : st.skb = none) : ∃ st', Ends ic outcomes st 1 st' ∧ st.rounds ⊆ st'.rounds := by
  cases hfirst : st.txbuf.first with
  | none =>
      refine ⟨{ st with stopped := true }, ends_of_leave ?_, fun _ => id⟩
      simp only [TxState.startRound, hfirst]
  | some bf =>
      refine ⟨(st.take.putBack bf).settle bf [.putBack], ends_of_leave ?_,
        List.subset_append_left _ _⟩
      simp only [TxState.startRound, hfirst, hmgtq, hskb]

theorem sendData_spec (ok : Bool) (st : TxState α ν β) (bf : β) (ni : ν)
    (before : List Settlement) (frame : DataFrame α) :
    ∃ st₁ use, st.sendData ok bf ni before frame = (st₁, !ok) ∧ st₁.mgtq = st.mgtq ∧
      st₁.skb = none ∧ st₁.uses = st.uses ++ [use] ∧
      st₁.rounds =
        st.rounds ++ [⟨bf, before ++ [if ok then .handedOver else .putBack]⟩] ∧
      st₁.txbuf = if ok then st.txbuf else st.txbuf.insertTail bf := by
  cases ok with
  | true => exact ⟨_, .handedOver frame, rfl, rfl, rfl, rfl, rfl, rfl⟩
  | false => exact ⟨_, .freedByTx, rfl, rfl, rfl, rfl, rfl, rfl⟩

theorem ends_supported {frame : DataFrame α} {ni : ν} (skb : DataFrame α)
    (h : Balanced bufs (bf :: free) st) (hmgtq : st.mgtq = []) (huses : st.uses = [])
    (hround : st.startRound ic outcomes =
      st.take.sendData (outcomes st.calls) bf ni [] frame) :
    ∃ st', Ends ic outcomes st 2 st' ∧ Conserves bufs (some skb) 0 st'.freeData := by
  obtain ⟨st₁, use, hsend, hmgtq₁, hskb₁, huses₁, hrounds₁, htxbuf₁⟩ :=
    sendData_spec (outcomes st.calls) st.take bf ni [] frame
  rw [hsend] at hround
  have hused : st₁.uses.length = 1 := by
    rw [huses₁]
    exact congrArg (fun uses => (uses ++ [use]).length) huses
  cases hok : outcomes st.calls with
  | true =>
      rw [hok] at hround hrounds₁ htxbuf₁
      refine ⟨st₁, (ends_of_leave hround).mono (by omega),
        (h.hand htxbuf₁ hrounds₁).conserves ?_⟩
      simpa [TxState.freeData, hskb₁] using hused
  | false =>
      rw [hok] at hround hrounds₁ htxbuf₁
      obtain ⟨st', hends, hnone, huses', free', hbalanced⟩ :=
        ends_without_data ic outcomes (h.put htxbuf₁ hrounds₁) hskb₁
      have hempty : st₁.mgtq = [] := hmgtq₁.trans hmgtq
      rw [hempty] at hends
      refine ⟨st', ends_of_again hround hends, hbalanced.conserves ?_⟩
      simpa [TxState.freeData, hnone, huses'] using hused

theorem ends_unsupported {frame : DataFrame α} {ni : ν} (hmgtq : st.mgtq = [])
    (hround : st.startRound ic outcomes =
      (st.take.cleanup bf (some ni)).sendData (outcomes st.calls) bf ni [.putBack] frame) :
    ∃ st', Ends ic outcomes st 2 st' ∧
      ¬∀ round ∈ st'.freeData.rounds,
        round.settled = [.putBack] ∨ round.settled = [.handedOver] := by
  obtain ⟨st₁, use, hsend, hmgtq₁, hskb₁, -, hrounds₁, -⟩ :=
    sendData_spec (outcomes st.calls) (st.take.cleanup bf (some ni)) bf ni [.putBack] frame
  rw [hsend] at hround
  obtain ⟨st', hends, hsubset⟩ : ∃ st', Ends ic outcomes st 2 st' ∧ st₁.rounds ⊆ st'.rounds := by
    cases hok : outcomes st.calls with
    | true =>
        rw [hok] at hround
        exact ⟨st₁, (ends_of_leave hround).mono (by omega), fun _ => id⟩
    | false =>
        rw [hok] at hround
        obtain ⟨st', hends, hsubset⟩ := ends_idle ic outcomes (hmgtq₁.trans hmgtq) hskb₁
        exact ⟨st', ends_of_again hround hends, hsubset⟩
  have hrounds : st'.freeData.rounds = st'.rounds := by
    unfold TxState.freeData
    split_ifs <;> rfl
  refine ⟨st', hends, fun hall => ?_⟩
  rw [hrounds] at hall
  have hbad := hall _ (hsubset (hrounds₁ ▸ List.mem_append_right _ List.mem_cons_self))
  simp at hbad

theorem ends_with_data_nil {skb : DataFrame α} (ic : Ieee80211com α ν) (outcomes : ℕ → Bool)
    (h : Balanced bufs (bf :: free) st) (hmgtq : st.mgtq = []) (hskb : st.skb = some skb)
    (huses : st.uses = []) :
    ∃ st', Ends ic outcomes st 2 st' ∧
      (Conserves bufs (some skb) 0 st'.freeData ↔
        (ic.Transmits skb → ic.opmode.supported = true)) := by
  by_cases hsends : ic.Transmits skb
  · obtain ⟨ni, frame, hround⟩ := dataRound_transmits (outcomes st.calls) st.take bf hsends
    rw [← startRound_data ic outcomes h.holds hmgtq hskb] at hround
    cases hmode : ic.opmode.supported with
    | true =>
        rw [hmode, if_pos rfl] at hround
        obtain ⟨st', hends, hconserves⟩ := ends_supported skb h hmgtq huses hround
        exact ⟨st', hends, iff_of_true hconserves fun _ => rfl⟩
    | false =>
        rw [hmode, if_neg (by simp)] at hround
        obtain ⟨st', hends, hbad⟩ := ends_unsupported hmgtq hround
        refine ⟨st', hends, iff_of_false (fun hconserves => ?_) (fun hyes => ?_)⟩
        · exact hbad hconserves.settled
        · cases hyes hsends
  · obtain ⟨st', hround, hbalanced, hcases⟩ := data_refused outcomes h hmgtq hskb hsends
    refine ⟨st', (ends_of_leave hround).mono (by omega), ?_⟩
    refine iff_of_true (hbalanced.conserves ?_) (fun hyes => absurd hyes hsends)
    obtain ⟨hleft, huses'⟩ | ⟨hnone, huses'⟩ := hcases
    · simp [TxState.freeData, TxState.use, hleft, huses', huses]
    · simp [TxState.freeData, hnone, huses', huses]

theorem ends_no_buffer {skb : DataFrame α} (ic : Ieee80211com α ν) (outcomes : ℕ → Bool)
    (h : Balanced bufs [] st) (hskb : st.skb = some skb) (huses : st.uses = []) :
    ∃ st', Ends ic outcomes st 1 st' ∧ Conserves bufs (some skb) 0 st'.freeData := by
  refine ⟨_, ends_of_leave (startRound_nil h.holds), Balanced.conserves (h.congr rfl rfl) ?_⟩
  simp [TxState.freeData, TxState.use, hskb, huses]

theorem sendsWell_no_buffer (outcomes : ℕ → Bool) (k : ℕ) (skb : DataFrame α) :
    SendsWell ic outcomes 0 k skb :=
  ⟨fun i hi => absurd hi (by omega), fun hlt => absurd hlt (Nat.not_lt_zero k)⟩

theorem ends_with_data {skb : DataFrame α} (ic : Ieee80211com α ν) (outcomes : ℕ → Bool)
    (h : Balanced bufs free st) (hskb : st.skb = some skb) (huses : st.uses = []) :
    ∃ st', Ends ic outcomes st (st.mgtq.length + 2) st' ∧
      (Conserves bufs (some skb) 0 st'.freeData ↔
        SendsWell ic (fun i => outcomes (st.calls + i)) free.length st.mgtq.length skb) := by
  induction hmgtq : st.mgtq generalizing st free with
  | nil =>
      cases free with
      | nil =>
          obtain ⟨st', hends, hconserves⟩ := ends_no_buffer ic outcomes h hskb huses
          exact ⟨st', hends.mono (by omega), iff_of_true hconserves (sendsWell_no_buffer _ _ _)⟩
      | cons bf free =>
          obtain ⟨st', hends, hiff⟩ := ends_with_data_nil ic outcomes h hmgtq hskb huses
          refine ⟨st', hends, hiff.trans ⟨fun hmode => ⟨?_, fun _ => hmode⟩, fun hwell => ?_⟩⟩
          · intro i hi
            simp at hi
          · exact hwell.mode (Nat.succ_pos _)
  | cons frame mgtq ih =>
      cases free with
      | nil =>
          obtain ⟨st', hends, hconserves⟩ := ends_no_buffer ic outcomes h hskb huses
          exact ⟨st', hends.mono (by omega), iff_of_true hconserves (sendsWell_no_buffer _ _ _)⟩
      | cons bf free =>
          obtain ⟨st₁, hround, hmgtq', hcalls, huses', hcases⟩ := mgmt_again ic outcomes h hmgtq
          rw [List.length_cons, List.length_cons, sendsWell_succ, Nat.add_zero]
          cases hok : outcomes st.calls with
          | true =>
              rw [hok, if_pos rfl] at hcases
              obtain ⟨st', hends, hiff⟩ :=
                ih hcases.2 (hcases.1.trans hskb) (huses'.trans huses) hmgtq'
              refine ⟨st', ends_of_again hround hends, hiff.trans ?_⟩
              simp only [true_and, hcalls, Nat.add_assoc, Nat.add_comm 1]
          | false =>
              -- the data frame is forgotten here
              rw [hok, if_neg (by simp)] at hcases
              obtain ⟨st', hends, hnone, hleft, -⟩ :=
                ends_without_data ic outcomes hcases.2 hcases.1
              rw [hmgtq'] at hends
              refine ⟨st', ends_of_again hround (hends.mono (by omega)), iff_of_false ?_ (by simp)⟩
              intro hconserves
              have hused := hconserves.consumed rfl rfl
              simp [TxState.freeData, hnone, hleft, huses', huses] at hused

/-- `_phy_start` returns, and it conserves buffers and data frame exactly when the device is
down, there is no data frame, or the frames are sent well. -/
theorem phy_start_conserves_iff {txbuf : TailQueue β} (htxbuf : txbuf.Holds bufs) (up : Bool)
    (ic : Ieee80211com α ν) (outcomes : ℕ → Bool) (mgtq : List (MgmtFrame ν))
    (skb : Option (DataFrame α)) (stopped : Bool) :
    ∃ ret st, (∀ fuel, mgtq.length + 2 ≤ fuel →
        phyStart up ic outcomes fuel (.enter txbuf mgtq skb stopped) = some (ret, st)) ∧
      (Conserves bufs skb ret st ↔
        (up = true → ∀ frame, skb = some frame →
          SendsWell ic outcomes bufs.length mgtq.length frame)) := by
  have hbalanced : Balanced bufs bufs (TxState.enter txbuf mgtq skb stopped) :=
    ⟨nofun, htxbuf, by rw [show (TxState.enter txbuf mgtq skb stopped).handed = [] from rfl,
      List.append_nil]⟩
  cases up with
  | false =>
      refine ⟨-enetdown, _, fun _ _ => rfl, iff_of_true ?_ nofun⟩
      exact ⟨hbalanced.settled, ⟨bufs, hbalanced.holds, hbalanced.perm⟩,
        fun hret => absurd hret (by decide)⟩
  | true =>
      cases skb with
      | none =>
          obtain ⟨st', hends, hnone, -, free, hst'⟩ :=
            ends_without_data ic outcomes hbalanced rfl
          refine ⟨0, st'.freeData, fun fuel hfuel => ?_, iff_of_true ?_ (fun _ _ h => by cases h)⟩
          · simp [phyStart, hends fuel (by exact Nat.le_of_succ_le hfuel)]
          · have hfree : st'.freeData = st' := by simp [TxState.freeData, hnone]
            rw [hfree]
            exact ⟨hst'.settled, ⟨free, hst'.holds, hst'.perm⟩, nofun⟩
      | some frame =>
          obtain ⟨st', hends, hiff⟩ := ends_with_data ic outcomes hbalanced rfl rfl
          refine ⟨0, st'.freeData, fun fuel hfuel => ?_, hiff.trans ?_⟩
          · simp [phyStart, hends fuel hfuel]
          · constructor
            · intro hwell _ frame' heq
              obtain rfl := Option.some.inj heq
              simpa [TxState.enter] using hwell
            · intro hwell
              simpa [TxState.enter] using hwell rfl frame rfl

end Round

def readyCom (opmode : OpMode) : Ieee80211com ℕ ℕ where
  run := true
  opmode
  bssid := 7
  findTxnode := some
  pwrMgt := fun _ => false
  classify := fun _ _ => false

def someFrame : DataFrame ℕ := ⟨1, 2, 3, .tods, false⟩

def oneBuffer : TailQueue ℕ := TailQueue.empty.insertTail 0

theorem holds_oneBuffer : oneBuffer.Holds [0] :=
  TailQueue.holds_empty.insertTail List.not_mem_nil

/-- A data frame in an ad hoc network. -/
theorem phy_start_conserves_ibss : oneBuffer.Holds [0] ∧
    ∃ ret st, (∀ fuel, 2 ≤ fuel → phyStart true (readyCom .ibss) (fun _ => true) fuel
        (.enter oneBuffer [] (some someFrame) false) = some (ret, st)) ∧
      Conserves [0] (some someFrame) ret st := by
  obtain ⟨ret, st, hstart, hiff⟩ := phy_start_conserves_iff holds_oneBuffer true (readyCom .ibss)
    (fun _ => true) [] (some someFrame) false
  refine ⟨holds_oneBuffer, ret, st, hstart, hiff.mpr fun _ frame _ => ?_⟩
  exact ⟨fun _ _ => rfl, fun _ _ => rfl⟩

/-- In monitor mode the buffer is put back and handed over. When a management frame cannot be
sent, the data frame is neither sent nor freed. -/
theorem phy_start_loses : (∃ st, phyStart true (readyCom .monitor) (fun _ => true) 2
        (.enter oneBuffer [] (some someFrame) false) = some (0, st) ∧
      st.rounds = [⟨0, [.putBack, .handedOver]⟩] ∧ ¬Conserves [0] (some someFrame) 0 st) ∧
    ∃ st, phyStart true (readyCom .ibss) (fun _ => false) 3
        (.enter oneBuffer [⟨none⟩] (some someFrame) false) = some (0, st) ∧
      st.uses = [] ∧ ¬Conserves [0] (some someFrame) 0 st := by
  refine ⟨⟨_, rfl, rfl, fun hconserves => ?_⟩, ⟨_, rfl, rfl, fun hconserves => ?_⟩⟩
  · have hsettled := hconserves.settled _ List.mem_cons_self
    exact absurd hsettled (by decide)
  · exact absurd (hconserves.consumed rfl rfl) (by decide)

end Phy
end WirelessMesh
