import WirelessMesh.Lib.Runs
import WirelessMesh.Pcm.Channel

/-!
# The transmit ring as a stream

One process writes to a channel while transmit interrupts come in at any point between
its test, its copy and its publication. What goes on the line is what the writes took, in
order, with silence only where nothing was left to send.
-/

namespace WirelessMesh
namespace Pcm

open Machine

inductive Writer where
  | idle
  | tested (usrbuf : List Byte) (count : ℕ)
  | copied (usrbuf : List Byte) (amnt : ℕ)

/-- The channel and its writer, the bytes on the line with the block each is from, and what
the calls have accepted, cut to the length they returned. -/
structure TxState where
  chan : Buffers
  writer : Writer
  line : List (Byte × Option ℕ)
  accepted : List (List Byte)

def TxState.start (blocksize : ℕ) (memory : ℕ → ℕ → Byte) : TxState :=
  ⟨.fresh blocksize memory, .idle, [], []⟩

inductive TxEvent where
  | interrupt
  | write (usrbuf : List Byte)
  | copy
  | publish

/-- One step. A step that is not the next one of the process is refused. -/
def txStep (blocksize numbufs : ℕ) : TxEvent → TxState → Option TxState
  | .interrupt, s => do
      let (chan, log) ← channelOutGetbufChunk numbufs s.chan
      return { s with chan, line := s.line ++ log }
  | .write usrbuf, s =>
      match s.writer with
      | .idle =>
          match chanWriteTest s.chan usrbuf.length with
          | .error _ => some s
          | .ok count => some { s with writer := .tested usrbuf count }
      | _ => none
  | .copy, s =>
      match s.writer with
      | .tested usrbuf count => do
          let (amnt, chan) ← chanWriteCopy blocksize s.chan usrbuf count
          -- nothing to copy, nothing to publish
          return { s with chan, writer := if amnt = 0 then .idle else .copied usrbuf amnt }
      | _ => none
  | .publish, s =>
      match s.writer with
      | .copied usrbuf amnt =>
          some { s with
            chan := chanWritePublish numbufs s.chan, writer := .idle
            accepted := s.accepted ++ [usrbuf.take amnt] }
      | _ => none

structure FaithfulTx (blocksize numbufs : ℕ) (s : TxState) : Prop where
  /-- what went on the line is the beginning of what was accepted -/
  order : inBlocks s.line <+: s.accepted.flatten
  /-- and interrupts alone bring out the rest -/
  complete : ∃ k t, finish (txStep blocksize numbufs) (List.replicate k .interrupt) s = some t ∧
    inBlocks t.line = s.accepted.flatten
  /-- an interrupt fills its chunk -/
  chunk : ∃ chan log, channelOutGetbufChunk numbufs s.chan = some (chan, log) ∧
    log.length = asChunksize
  /-- silence comes after all that was accepted -/
  silence : ∀ chan log, channelOutGetbufChunk numbufs s.chan = some (chan, log) →
    ∀ before x after, log = before ++ (x, none) :: after →
      x = 0 ∧ inBlocks (s.line ++ before) = s.accepted.flatten
  /-- only published blocks are read -/
  published : ∀ chan log, channelOutGetbufChunk numbufs s.chan = some (chan, log) →
    ∀ x i, (x, some i) ∈ log → i ∈ s.chan.ring.published numbufs
  copies : ∀ usrbuf count, s.writer = .tested usrbuf count →
    (chanWriteCopy blocksize s.chan usrbuf count).isSome

/-! ## The blocks of a channel -/

def Block.rest (blk : Block) : List Byte := (blk.buf.drop blk.idx).take (blk.count - blk.idx)

def pendingBytes (q : List Block) : List Byte := (q.map Block.rest).flatten

structure Draining (blocksize numbufs : ℕ) (chan : Buffers) (o : ℕ) (q : List Block) : Prop where
  queued : RingIndex.Queued numbufs (fun _ => True) chan.ring chan.blocks o q
  length : ∀ x, (chan.blocks x).buf.length = blocksize
  pending : ∀ blk ∈ q, blk.idx < blk.count ∧ blk.count ≤ blk.buf.length

structure Get (blocksize numbufs : ℕ) (chan : Buffers) (o : ℕ) (q : List Block) (bytes : ℕ)
    (chan' : Buffers) (log : List (Byte × Option ℕ)) (o' : ℕ) (q' : List Block) : Prop where
  draining : Draining blocksize numbufs chan' o' q'
  sent : pendingBytes q = inBlocks log ++ pendingBytes q'
  length : log.length = bytes
  silence : ∀ before x after, log = before ++ (x, none) :: after →
    x = 0 ∧ inBlocks before = pendingBytes q
  source : ∀ x i, (x, some i) ∈ log → ∃ j < q.length, i = (o + j) % numbufs
  kept : ∀ i, chan.ring.fill = some i →
    chan'.ring.fill = some i ∧ chan'.blocks i = chan.blocks i

section Draining

variable {blocksize numbufs : ℕ} {chan : Buffers} {o i : ℕ} {q : List Block}

theorem draining_fresh (hn : 2 ≤ numbufs) (memory : ℕ → ℕ → Byte) :
    Draining blocksize numbufs (.fresh blocksize memory) 0 [] where
  queued := .empty (by omega) fun _ => trivial
  length := by simp [Buffers.fresh]
  pending := by simp

theorem Draining.head {blk : Block} (h : Draining blocksize numbufs chan o (blk :: q)) :
    chan.ring.drain = some o ∧ chan.blocks o = blk := by
  have hdrain : chan.ring.drain = some o := by
    rw [h.queued.drain_eq]
    rfl
  obtain ⟨_, _, hhead⟩ := h.queued.of_drain hdrain
  exact ⟨hdrain, (List.cons.inj hhead).1.symm⟩

def Block.drained (blk : Block) (left : ℕ) : Block := { blk with idx := blk.idx + left }

theorem Block.rest_drained (blk : Block) (left : ℕ) :
    (blk.drained left).rest = blk.rest.drop left := by
  rw [Block.rest, Block.rest, Block.drained, List.drop_take, List.drop_drop, Nat.sub_sub]

theorem Block.take_rest {blk : Block} {left : ℕ} (h : left ≤ blk.count - blk.idx) :
    blk.rest.take left = (blk.buf.drop blk.idx).take left := by
  rw [Block.rest, List.take_take, Nat.min_eq_left h]

theorem Block.length_rest {blk : Block} (h : blk.count ≤ blk.buf.length) :
    blk.rest.length = blk.count - blk.idx := by
  rw [Block.rest, List.length_take, List.length_drop]
  omega

theorem Draining.advance {blk : Block} {left : ℕ}
    (h : Draining blocksize numbufs chan o (blk :: q)) (hlt : blk.idx + left < blk.count) :
    Draining blocksize numbufs
      { chan with blocks := Function.update chan.blocks o (blk.drained left) } o
      (blk.drained left :: q) := by
  refine ⟨h.queued.write_head, ?_, ?_⟩
  · intro x
    obtain ⟨_, rfl⟩ := h.head
    by_cases hx : x = o
    · subst hx
      simpa [Block.drained] using h.length x
    · simpa [hx] using h.length x
  · intro blk' hmem
    rcases List.mem_cons.mp hmem with rfl | hmem
    · exact ⟨hlt, (h.pending blk List.mem_cons_self).2⟩
    · exact h.pending blk' (List.mem_cons_of_mem _ hmem)

theorem Draining.finished {blk empty : Block}
    (h : Draining blocksize numbufs chan o (blk :: q)) (hn : 2 ≤ numbufs)
    (hempty : empty.buf = blk.buf) :
    Draining blocksize numbufs
      ⟨Function.update chan.blocks o empty, chan.ring.release numbufs⟩ ((o + 1) % numbufs) q := by
  obtain ⟨hqueued, _⟩ := h.queued.release (y := empty) hn trivial
  refine ⟨hqueued, ?_, ?_⟩
  · intro x
    obtain ⟨_, rfl⟩ := h.head
    by_cases hx : x = o
    · subst hx
      simpa [hempty] using h.length x
    · simpa [hx] using h.length x
  · intro blk' hmem
    exact h.pending blk' (List.mem_cons_of_mem _ hmem)

theorem Get.silent (h : Draining blocksize numbufs chan o []) (bytes : ℕ) :
    Get blocksize numbufs chan o [] bytes chan (List.replicate bytes (0, none)) o [] where
  draining := h
  sent := by simp [pendingBytes, inBlocks]
  length := List.length_replicate
  silence := by
    intro before x after heq
    have hmem : (x, none) ∈ List.replicate bytes ((0 : Byte), (none : Option ℕ)) := by
      rw [heq]
      simp
    have hbefore : ∀ entry ∈ before, entry = ((0 : Byte), (none : Option ℕ)) := by
      intro entry hentry
      apply List.eq_of_mem_replicate (n := bytes)
      rw [heq]
      exact List.mem_append_left _ hentry
    refine ⟨(Prod.mk.inj (List.eq_of_mem_replicate hmem)).1, ?_⟩
    rw [inBlocks, List.filter_eq_nil_iff.mpr]
    · rfl
    · intro entry hentry
      simp [hbefore entry hentry]
  source := by
    intro x i hmem
    have := List.eq_of_mem_replicate hmem
    simp at this
  kept := fun i hi => ⟨hi, rfl⟩

theorem Get.then {chan₁ chan₂ : Buffers} {txb : List Byte} {bytes o₁ o₂ : ℕ}
    {log : List (Byte × Option ℕ)} {q₁ q₂ : List Block}
    (h : Get blocksize numbufs chan₁ o₁ q₁ bytes chan₂ log o₂ q₂)
    (hsent : pendingBytes q = txb ++ pendingBytes q₁)
    (hslots : ∀ j < q₁.length, ∃ j' < q.length, (o₁ + j) % numbufs = (o + j') % numbufs)
    (hfirst : ∃ j < q.length, i = (o + j) % numbufs)
    (hkept : ∀ i, chan.ring.fill = some i →
      chan₁.ring.fill = some i ∧ chan₁.blocks i = chan.blocks i) :
    Get blocksize numbufs chan o q (txb.length + bytes) chan₂
      (txb.map (fun x => (x, some i)) ++ log) o₂ q₂ where
  draining := h.draining
  sent := by rw [hsent, h.sent, inBlocks_append, inBlocks_some, List.append_assoc]
  length := by rw [List.length_append, List.length_map, h.length]
  silence := by
    intro before x after heq
    rcases List.append_eq_append_iff.mp heq with ⟨mid, rfl, hlog⟩ | ⟨mid, hmap, _⟩
    · obtain ⟨hzero, hmid⟩ := h.silence mid x after hlog
      refine ⟨hzero, ?_⟩
      rw [inBlocks_append, inBlocks_some, hmid, hsent]
    · -- the silence cannot be among the bytes of a block
      cases mid with
      | nil =>
          rw [List.append_nil] at hmap
          subst hmap
          rw [List.append_right_inj] at heq
          obtain ⟨hzero, hnil⟩ := h.silence [] x after heq
          refine ⟨hzero, ?_⟩
          rw [inBlocks_some, hsent, ← hnil]
          simp [inBlocks]
      | cons entry mid =>
          rename_i hrest
          obtain ⟨rfl, _⟩ := List.cons.inj hrest
          have hmem : (x, none) ∈ txb.map fun x => (x, some i) := by
            rw [hmap]
            simp
          simp at hmem
  source := by
    intro x j hmem
    rcases List.mem_append.mp hmem with hmem | hmem
    · obtain ⟨_, _, heq⟩ := List.mem_map.mp hmem
      obtain rfl := Option.some.inj (Prod.mk.inj heq).2
      exact hfirst
    · obtain ⟨j', hj', rfl⟩ := h.source x j hmem
      exact hslots j' hj'
  kept := by
    intro j hj
    obtain ⟨hfill, hblock⟩ := hkept j hj
    obtain ⟨hfill', hblock'⟩ := h.kept j hfill
    exact ⟨hfill', hblock'.trans hblock⟩

def getRound (numbufs : ℕ) (chan : Buffers) (out left : ℕ) : Buffers :=
  if (chan.blocks out).count ≤ (chan.blocks out).idx + left then
    { blocks := Function.update chan.blocks out
        { (chan.blocks out).drained left with count := 0, idx := 0 }
      ring := chan.ring.release numbufs }
  else { chan with blocks := Function.update chan.blocks out ((chan.blocks out).drained left) }

theorem getbufLoop_succ {fuel bytes left : ℕ} (hdrain : chan.ring.drain = some i)
    (hbytes : bytes ≠ 0)
    (hleft : min ((chan.blocks i).count - (chan.blocks i).idx) bytes = left) :
    channelOutGetbufLoop numbufs (fuel + 1) chan bytes =
      (channelOutGetbufLoop numbufs fuel (getRound numbufs chan i left) (bytes - left)).map
        fun r => (r.1, ((((chan.blocks i).buf.drop (chan.blocks i).idx).take left).map
          fun x => (x, some i)) ++ r.2) := by
  rw [channelOutGetbufLoop, hdrain]
  · dsimp only
    rw [hleft, getRound, Block.drained]
    cases channelOutGetbufLoop numbufs fuel _ (bytes - left) <;> rfl
  · exact hbytes

theorem Draining.kept_round {blk : Block} {left : ℕ}
    (h : Draining blocksize numbufs chan o (blk :: q)) (hfill : chan.ring.fill = some i) :
    (getRound numbufs chan o left).ring.fill = some i ∧
      (getRound numbufs chan o left).blocks i = chan.blocks i := by
  have hne := h.queued.fill_ne_start hfill
  have hdrain := h.head.1
  unfold getRound
  split_ifs
  · simp [RingIndex.release, hdrain, hfill, hne]
  · simp [hfill, hne]

theorem Draining.round {blk : Block} {left : ℕ} (hn : 2 ≤ numbufs)
    (h : Draining blocksize numbufs chan o (blk :: q)) (hle : left ≤ blk.count - blk.idx) :
    ∃ o₁ q₁, Draining blocksize numbufs (getRound numbufs chan o left) o₁ q₁ ∧
      pendingBytes (blk :: q) = blk.rest.take left ++ pendingBytes q₁ ∧
      ∀ j < q₁.length, ∃ j' < (blk :: q).length, (o₁ + j) % numbufs = (o + j') % numbufs := by
  obtain ⟨hdrain, rfl⟩ := h.head
  obtain ⟨_, hcount⟩ := h.pending _ List.mem_cons_self
  unfold getRound
  by_cases hdone : (chan.blocks o).count ≤ (chan.blocks o).idx + left
  · rw [if_pos hdone]
    have hall : (chan.blocks o).rest.take left = (chan.blocks o).rest := by
      apply List.take_of_length_le
      rw [Block.length_rest hcount]
      omega
    refine ⟨(o + 1) % numbufs, q, h.finished hn rfl, by simp [pendingBytes, hall], ?_⟩
    intro j hj
    exact ⟨j + 1, by simpa using hj, RingIndex.slot_shift numbufs o j⟩
  · rw [if_neg hdone]
    refine ⟨o, (chan.blocks o).drained left :: q, h.advance (Nat.not_le.mp hdone), ?_, ?_⟩
    · simp only [pendingBytes, List.map_cons, List.flatten_cons, Block.rest_drained]
      rw [← List.append_assoc, List.take_append_drop]
    · intro j hj
      exact ⟨j, by simpa using hj, rfl⟩

theorem getbufLoop_spec (hn : 2 ≤ numbufs) {fuel bytes : ℕ}
    (h : Draining blocksize numbufs chan o q) (hfuel : bytes ≤ fuel) :
    ∃ chan' log o' q', channelOutGetbufLoop numbufs fuel chan bytes = some (chan', log) ∧
      Get blocksize numbufs chan o q bytes chan' log o' q' := by
  induction fuel generalizing chan o q bytes with
  | zero =>
      obtain rfl := Nat.le_zero.mp hfuel
      exact ⟨chan, [], o, q, rfl, h, rfl, rfl, by simp, by simp, fun i hi => ⟨hi, rfl⟩⟩
  | succ fuel ih =>
      by_cases hbytes : bytes = 0
      · subst hbytes
        exact ⟨chan, [], o, q, rfl, h, rfl, rfl, by simp, by simp, fun i hi => ⟨hi, rfl⟩⟩
      · cases q with
        | nil =>
            refine ⟨chan, _, o, [], ?_, .silent h bytes⟩
            have hdrain : chan.ring.drain = none := by
              rw [h.queued.drain_eq]
              rfl
            rw [channelOutGetbufLoop, hdrain]
            exact hbytes
        | cons blk q =>
            obtain ⟨hdrain, rfl⟩ := h.head
            obtain ⟨hidx, hcount⟩ := h.pending _ List.mem_cons_self
            generalize hleft : min ((chan.blocks o).count - (chan.blocks o).idx) bytes = left
            have hle : left ≤ (chan.blocks o).count - (chan.blocks o).idx := by omega
            have hlen : ((chan.blocks o).rest.take left).length = left := by
              rw [List.length_take, Block.length_rest hcount]
              omega
            have hfuel' : bytes ≤ fuel + left := by omega
            obtain ⟨o₁, q₁, hnext, hsent, hslots⟩ := h.round hn hle
            obtain ⟨chan', log, o', q', hloop, hget⟩ := ih hnext (Nat.sub_le_of_le_add hfuel')
            have hthen := hget.then hsent hslots
              ⟨0, by simp, (RingIndex.slot_start h.queued.start).symm⟩
              (fun _ hj => h.kept_round hj)
            rw [hlen, Nat.add_sub_cancel' (by omega)] at hthen
            refine ⟨chan', _, o', q', ?_, hthen⟩
            rw [getbufLoop_succ hdrain hbytes hleft, hloop, Option.map_some, ← Block.take_rest hle]

end Draining

/-! ## Runs -/

/-- What holds in every state of a run: what was accepted is on the line or in the blocks,
and the writer is at a block of its own. -/
structure TxInv (blocksize numbufs : ℕ) (s : TxState) (o : ℕ) (q : List Block) : Prop where
  draining : Draining blocksize numbufs s.chan o q
  stream : s.accepted.flatten = inBlocks s.line ++ pendingBytes q
  tested : ∀ usrbuf count, s.writer = .tested usrbuf count →
    0 < count ∧ count ≤ usrbuf.length ∧ s.chan.ring.fill.isSome
  copied : ∀ usrbuf amnt, s.writer = .copied usrbuf amnt → 0 < amnt ∧ amnt ≤ blocksize ∧
    ∃ i, s.chan.ring.fill = some i ∧ (s.chan.blocks i).count = amnt ∧ (s.chan.blocks i).idx = 0 ∧
      (s.chan.blocks i).buf.take amnt = usrbuf.take amnt

section Runs

variable {blocksize numbufs : ℕ} {s s' : TxState} {o : ℕ} {q : List Block}

theorem txInv_start (hn : 2 ≤ numbufs) (memory : ℕ → ℕ → Byte) :
    TxInv blocksize numbufs (.start blocksize memory) 0 [] where
  draining := draining_fresh hn memory
  stream := by simp [TxState.start, inBlocks, pendingBytes]
  tested := by simp [TxState.start]
  copied := by simp [TxState.start]

theorem TxInv.interrupt (h : TxInv blocksize numbufs s o q) (hn : 2 ≤ numbufs) :
    ∃ chan log o' q', channelOutGetbufChunk numbufs s.chan = some (chan, log) ∧
      Get blocksize numbufs s.chan o q asChunksize chan log o' q' :=
  getbufLoop_spec hn h.draining le_rfl

theorem TxInv.copy {usrbuf : List Byte} {count : ℕ} (h : TxInv blocksize numbufs s o q)
    (hb : 0 < blocksize) (hwriter : s.writer = .tested usrbuf count) :
    ∃ amnt chan, chanWriteCopy blocksize s.chan usrbuf count = some (amnt, chan) ∧
      Draining blocksize numbufs chan o q ∧ 0 < amnt ∧ amnt ≤ blocksize ∧
      ∃ i, chan.ring.fill = some i ∧ (chan.blocks i).count = amnt ∧ (chan.blocks i).idx = 0 ∧
        (chan.blocks i).buf.take amnt = usrbuf.take amnt := by
  obtain ⟨hcount, hle, hsome⟩ := h.tested usrbuf count hwriter
  obtain ⟨i, hfill⟩ := Option.isSome_iff_exists.mp hsome
  generalize hamnt : (if blocksize < count then blocksize else count) = amnt
  have hbounds : 0 < amnt ∧ amnt ≤ blocksize ∧ amnt ≤ count := by
    rw [← hamnt]
    split_ifs <;> omega
  have hlen : (usrbuf.take amnt).length = amnt := List.length_take_of_le (by omega)
  have hbuf := h.draining.length i
  refine ⟨amnt, ⟨Function.update s.chan.blocks i
    ⟨overwrite (s.chan.blocks i).buf 0 (usrbuf.take amnt), amnt, 0⟩, s.chan.ring⟩, ?_,
    ⟨h.draining.queued.write hfill, ?_, h.draining.pending⟩, hbounds.1, hbounds.2.1, i, hfill, ?_⟩
  · simp only [chanWriteCopy, hfill, Option.bind_eq_bind, Option.bind_some, Option.pure_def,
      hamnt]
  · intro x
    dsimp only
    by_cases hx : x = i
    · subst hx
      rw [Function.update_self]
      dsimp only
      rw [length_overwrite (by omega), hbuf]
    · rw [Function.update_of_ne hx]
      exact h.draining.length x
  · dsimp only
    rw [Function.update_self]
    refine ⟨rfl, rfl, ?_⟩
    have htake : (overwrite (s.chan.blocks i).buf 0 (usrbuf.take amnt)).take
        (0 + (usrbuf.take amnt).length) = _ := take_overwrite (Nat.zero_le _)
    simpa [hlen] using htake

theorem TxInv.publish {usrbuf : List Byte} {amnt : ℕ} (h : TxInv blocksize numbufs s o q)
    (hn : 2 ≤ numbufs) (hwriter : s.writer = .copied usrbuf amnt) : ∃ q',
      Draining blocksize numbufs (chanWritePublish numbufs s.chan) o q' ∧
        pendingBytes q' = pendingBytes q ++ usrbuf.take amnt := by
  obtain ⟨hpos, hle, i, hfill, hcount, hidx, htake⟩ := h.copied usrbuf amnt hwriter
  obtain ⟨hqueued, _⟩ := h.draining.queued.publish hn hfill
  refine ⟨q ++ [s.chan.blocks i], ⟨hqueued, h.draining.length, ?_⟩, ?_⟩
  · intro blk hmem
    rcases List.mem_append.mp hmem with hold | hnew
    · exact h.draining.pending blk hold
    · obtain rfl := List.mem_singleton.mp hnew
      rw [hcount, hidx, h.draining.length i]
      exact ⟨hpos, hle⟩
  · simp [pendingBytes, Block.rest, hcount, hidx, htake]

theorem TxInv.step_interrupt (h : TxInv blocksize numbufs s o q) (hn : 2 ≤ numbufs)
    (hstep : txStep blocksize numbufs .interrupt s = some s') :
    ∃ o q, TxInv blocksize numbufs s' o q := by
  obtain ⟨chan, log, o', q', hchunk, hget⟩ := h.interrupt hn
  simp only [txStep, hchunk, Option.bind_eq_bind, Option.bind_some, Option.pure_def,
    Option.some.injEq] at hstep
  subst hstep
  refine ⟨o', q', hget.draining, ?_, ?_, ?_⟩
  · rw [h.stream, hget.sent, inBlocks_append, List.append_assoc]
  · intro usrbuf count hwriter
    obtain ⟨hpos, hle, hsome⟩ := h.tested usrbuf count hwriter
    obtain ⟨i, hfill⟩ := Option.isSome_iff_exists.mp hsome
    refine ⟨hpos, hle, ?_⟩
    dsimp only
    rw [(hget.kept i hfill).1]
    rfl
  · intro usrbuf amnt hwriter
    obtain ⟨hpos, hle, i, hfill, hblock⟩ := h.copied usrbuf amnt hwriter
    obtain ⟨hfill', hkept⟩ := hget.kept i hfill
    refine ⟨hpos, hle, i, hfill', ?_⟩
    dsimp only
    rwa [hkept]

theorem TxInv.step_write {usrbuf : List Byte} (h : TxInv blocksize numbufs s o q)
    (hstep : txStep blocksize numbufs (.write usrbuf) s = some s') :
    ∃ o q, TxInv blocksize numbufs s' o q := by
  simp only [txStep] at hstep
  cases hwriter : s.writer with
  | tested => simp [hwriter] at hstep
  | copied => simp [hwriter] at hstep
  | idle =>
      simp only [hwriter] at hstep
      cases htest : chanWriteTest s.chan usrbuf.length with
      | error e =>
          simp only [htest, Option.some.injEq] at hstep
          subst hstep
          exact ⟨o, q, h⟩
      | ok c =>
          simp only [htest, Option.some.injEq] at hstep
          subst hstep
          simp only [chanWriteTest] at htest
          split_ifs at htest with hzero hfill
          obtain rfl := Except.ok.inj htest
          refine ⟨o, q, { h with tested := ?_, copied := by simp }⟩
          intro u c hc
          obtain ⟨rfl, rfl⟩ := Writer.tested.inj hc
          exact ⟨Nat.not_lt.mp hzero, Nat.mod_le _ _, hfill⟩

theorem TxInv.step_copy (h : TxInv blocksize numbufs s o q) (hb : 0 < blocksize)
    (hstep : txStep blocksize numbufs .copy s = some s') :
    ∃ o q, TxInv blocksize numbufs s' o q := by
  simp only [txStep] at hstep
  cases hwriter : s.writer with
  | idle => simp [hwriter] at hstep
  | copied => simp [hwriter] at hstep
  | tested usrbuf count =>
      obtain ⟨amnt, chan, hcopy, hdraining, hpos, hcopied⟩ := h.copy hb hwriter
      simp only [hwriter, hcopy, Option.bind_eq_bind, Option.bind_some, Option.pure_def,
        hpos.ne', if_false, Option.some.injEq] at hstep
      subst hstep
      refine ⟨o, q, hdraining, h.stream, by simp, ?_⟩
      intro u a ha
      obtain ⟨rfl, rfl⟩ := Writer.copied.inj ha
      exact ⟨hpos, hcopied⟩

theorem TxInv.step_publish (h : TxInv blocksize numbufs s o q) (hn : 2 ≤ numbufs)
    (hstep : txStep blocksize numbufs .publish s = some s') :
    ∃ o q, TxInv blocksize numbufs s' o q := by
  simp only [txStep] at hstep
  cases hwriter : s.writer with
  | idle => simp [hwriter] at hstep
  | tested => simp [hwriter] at hstep
  | copied usrbuf amnt =>
      simp only [hwriter, Option.some.injEq] at hstep
      subst hstep
      obtain ⟨q', hdraining, hpending⟩ := h.publish hn hwriter
      refine ⟨o, q', hdraining, ?_, by simp, by simp⟩
      rw [List.flatten_append, h.stream, hpending]
      simp

theorem txInv_step (hb : 0 < blocksize) (hn : 2 ≤ numbufs) {event : TxEvent}
    (h : ∃ o q, TxInv blocksize numbufs s o q)
    (hstep : txStep blocksize numbufs event s = some s') :
    ∃ o q, TxInv blocksize numbufs s' o q := by
  obtain ⟨o, q, h⟩ := h
  cases event with
  | interrupt => exact h.step_interrupt hn hstep
  | write usrbuf => exact h.step_write hstep
  | copy => exact h.step_copy hb hstep
  | publish => exact h.step_publish hn hstep

theorem Get.progress {chan chan' : Buffers} {log : List (Byte × Option ℕ)} {o' bytes : ℕ}
    {q' : List Block} (h : Get blocksize numbufs chan o q bytes chan' log o' q')
    (hbytes : 0 < bytes) (hq : pendingBytes q ≠ []) : inBlocks log ≠ [] := by
  intro hnone
  cases log with
  | nil => exact hbytes.ne h.length
  | cons entry log =>
      obtain ⟨x, i⟩ := entry
      cases i with
      | none =>
          have := (h.silence [] x log rfl).2
          exact hq this.symm
      | some i =>
          simp [inBlocks] at hnone

theorem TxInv.sends (h : TxInv blocksize numbufs s o q) (hn : 2 ≤ numbufs)
    (hmore : inBlocks s.line ≠ s.accepted.flatten) : ∃ t,
      txStep blocksize numbufs .interrupt s = some t ∧ t.accepted = s.accepted ∧
        s.accepted.flatten.length - (inBlocks t.line).length <
          s.accepted.flatten.length - (inBlocks s.line).length := by
  obtain ⟨chan, log, o', q', hchunk, hget⟩ := h.interrupt hn
  refine ⟨{ s with chan, line := s.line ++ log }, by simp [txStep, hchunk], rfl, ?_⟩
  have hpending : pendingBytes q ≠ [] := by
    intro hnil
    have hstream := h.stream
    rw [hnil, List.append_nil] at hstream
    exact hmore hstream.symm
  have hpos : 0 < (inBlocks log).length :=
    List.length_pos_iff.mpr (hget.progress (by decide) hpending)
  rw [h.stream, hget.sent]
  simp only [inBlocks_append, List.length_append]
  omega

theorem TxInv.complete (h : TxInv blocksize numbufs s o q) (hb : 0 < blocksize)
    (hn : 2 ≤ numbufs) : ∃ k t,
      finish (txStep blocksize numbufs) (List.replicate k .interrupt) s = some t ∧
        inBlocks t.line = s.accepted.flatten := by
  have hstep : ∀ t, ((∃ o q, TxInv blocksize numbufs t o q) ∧ t.accepted = s.accepted) →
      inBlocks t.line ≠ s.accepted.flatten → ∃ t',
        txStep blocksize numbufs .interrupt t = some t' ∧
        ((∃ o q, TxInv blocksize numbufs t' o q) ∧ t'.accepted = s.accepted) ∧
        s.accepted.flatten.length - (inBlocks t'.line).length <
          s.accepted.flatten.length - (inBlocks t.line).length := by
    rintro t ⟨⟨o, q, ht⟩, hsame⟩ hmore
    obtain ⟨t', hstep, hsame', hless⟩ := ht.sends hn (by rwa [hsame])
    rw [hsame] at hless
    exact ⟨t', hstep, ⟨txInv_step hb hn ⟨o, q, ht⟩ hstep, hsame'.trans hsame⟩, hless⟩
  obtain ⟨k, t, hfinish, _, hall⟩ := finish_of_measure _ TxEvent.interrupt hstep ⟨⟨o, q, h⟩, rfl⟩
  exact ⟨k, t, hfinish, hall⟩

theorem TxInv.faithful (h : TxInv blocksize numbufs s o q) (hb : 0 < blocksize)
    (hn : 2 ≤ numbufs) : FaithfulTx blocksize numbufs s := by
  obtain ⟨chan, log, o', q', hchunk, hget⟩ := h.interrupt hn
  have hsame : ∀ chan' log', channelOutGetbufChunk numbufs s.chan = some (chan', log') →
      log' = log := by
    intro chan' log' hchunk'
    exact (Prod.mk.inj (Option.some.inj (hchunk'.symm.trans hchunk))).2
  refine ⟨?_, h.complete hb hn, ⟨chan, log, hchunk, hget.length⟩, ?_, ?_, ?_⟩
  · rw [h.stream]
    exact List.prefix_append _ _
  · intro chan' log' hchunk' before x after heq
    rw [hsame chan' log' hchunk'] at heq
    obtain ⟨hzero, hbefore⟩ := hget.silence before x after heq
    exact ⟨hzero, by rw [inBlocks_append, hbefore, h.stream]⟩
  · intro chan' log' hchunk' x i hmem
    rw [hsame chan' log' hchunk'] at hmem
    obtain ⟨j, hj, rfl⟩ := hget.source x i hmem
    rw [h.draining.queued.published_eq]
    exact List.mem_map.mpr ⟨j, List.mem_range.mpr hj, rfl⟩
  · intro usrbuf count hwriter
    obtain ⟨amnt, chan', hcopy, _⟩ := h.copy hb hwriter
    simp [hcopy]

end Runs

/-- For every size and number of blocks, whatever was in memory, and every order of
interrupts and steps of the writer: the line carries what the writes took. -/
theorem tx_faithful (blocksize numbufs : ℕ) (memory : ℕ → ℕ → Byte) (hb : 1 ≤ blocksize)
    (hn : 2 ≤ numbufs) (events : List TxEvent) {s : TxState}
    (hv : Visits (txStep blocksize numbufs) (.start blocksize memory) events s) :
    FaithfulTx blocksize numbufs s := by
  obtain ⟨o, q, h⟩ := hv.invariant (P := fun s => ∃ o q, TxInv blocksize numbufs s o q)
    (txInv_step hb hn) ⟨0, [], txInv_start hn memory⟩
  exact h.faithful hb hn

/-- A long and a short write into two blocks of 100 bytes, with interrupts in between. -/
def twoWrites : List TxEvent :=
  [.interrupt, .write (List.replicate 150 1), .copy, .interrupt, .publish, .interrupt,
   .write [2, 3], .copy, .publish, .interrupt]

theorem tx_faithful_two_writes : ∃ s,
    Visits (txStep 100 2) (.start 100 fun _ _ => 0xff) twoWrites s ∧
      s.accepted = [List.replicate 100 1, [2, 3]] ∧
      inBlocks s.line = List.replicate 100 1 ++ [2, 3] ∧ FaithfulTx 100 2 s := by
  have hrun : (finish (txStep 100 2) twoWrites (.start 100 fun _ _ => 0xff)).any
      (fun s => decide (s.accepted = [List.replicate 100 1, [2, 3]] ∧
        inBlocks s.line = List.replicate 100 1 ++ [2, 3])) = true := by
    decide +kernel
  obtain ⟨s, hv, haccepted, hline⟩ := exists_visits hrun
  exact ⟨s, hv, haccepted, hline,
    tx_faithful 100 2 (fun _ _ => 0xff) (by decide) (by decide) _ hv⟩

end Pcm
end WirelessMesh
